/-
# `Lib.Backlog` — when a bounded buffer loses nothing

A component of a system holds at most `cap` items.  Each step brings some,
which are lost where they do not fit, and takes some away.  `lossless_iff`:
a run loses nothing exactly when in no stretch of it more than `cap` items
arrive beyond those taken away.  The condition speaks of the arrivals and the
departures only, not of what the buffer holds.
-/
import SravzBackend.Lib.Runs

namespace Backlog

variable {σ α : Type*}

/-- What arrives along a run. -/
def arrivals (step : σ → α → Option σ) (arrive : σ → α → Nat) : σ → List α → Nat
  | _, [] => 0
  | s, a :: as =>
      arrive s a + match step s a with
        | some s' => arrivals step arrive s' as
        | none => 0

/-- What is taken away along a run. -/
def departures (depart : α → Nat) : List α → Nat
  | [] => 0
  | a :: as => depart a + departures depart as

theorem arrivals_cons_of_step {step : σ → α → Option σ} {s s' : σ} {a : α}
    (h : step s a = some s') (arrive : σ → α → Nat) (as : List α) :
    arrivals step arrive s (a :: as) = arrive s a + arrivals step arrive s' as := by
  simp only [arrivals, h]

/-- A buffer of capacity `cap` in the states of a system: how many items it
holds, whether any has been lost, and how a step changes both. -/
structure LossyBuffer (step : σ → α → Option σ) (cap : Nat) where
  Inv : σ → Prop
  len : σ → Nat
  Lost : σ → Prop
  arrive : σ → α → Nat
  depart : α → Nat
  inv_step : ∀ {s s' a}, Inv s → step s a = some s' → Inv s'
  len_le : ∀ s, len s ≤ cap
  admits : ∀ {s s' a}, Inv s → step s a = some s' → len s + arrive s a ≤ cap + depart a →
    len s' = len s + arrive s a - depart a ∧ (Lost s' ↔ Lost s)
  refuses : ∀ {s s' a}, Inv s → step s a = some s' → cap + depart a < len s + arrive s a →
    Lost s'

namespace LossyBuffer

variable {step : σ → α → Option σ} {cap : Nat} (b : LossyBuffer step cap)

/-- A buffer holding `n` items has room for every beginning of the run. -/
def HasRoom (n : Nat) (s : σ) (as : List α) : Prop :=
  ∀ pre post, as = pre ++ post →
    n + arrivals step b.arrive s pre ≤ departures b.depart pre + cap

/-- In no stretch of the run do arrivals exceed departures by more than the
capacity. -/
def Bounded (s : σ) (as : List α) : Prop :=
  ∀ pre mid post m, as = pre ++ mid ++ post → Runs.run step s pre = some m →
    arrivals step b.arrive m mid ≤ departures b.depart mid + cap

variable {b}

theorem hasRoom_nil {n : Nat} {s : σ} : b.HasRoom n s [] ↔ n ≤ cap := by
  constructor
  · intro h
    simpa [departures, arrivals] using h [] [] rfl
  · intro h pre post hsplit
    obtain ⟨rfl, rfl⟩ := List.append_eq_nil_iff.mp hsplit.symm
    simpa [departures, arrivals] using h

theorem hasRoom_cons {n : Nat} {s s' : σ} {a : α} (h : step s a = some s') (as : List α) :
    b.HasRoom n s (a :: as) ↔ n ≤ cap ∧ ∀ pre post, as = pre ++ post →
      n + (b.arrive s a + arrivals step b.arrive s' pre) ≤
        b.depart a + departures b.depart pre + cap := by
  constructor
  · intro hroom
    refine ⟨?_, ?_⟩
    · simpa [departures, arrivals] using hroom [] (a :: as) rfl
    · intro pre post hsplit
      have hpre := hroom (a :: pre) post (by rw [hsplit, List.cons_append])
      rwa [arrivals_cons_of_step h, departures] at hpre
  · rintro ⟨hcap, hrest⟩ pre post hsplit
    cases pre with
    | nil => simpa [departures, arrivals] using hcap
    | cons a' pre =>
        rw [List.cons_append] at hsplit
        obtain ⟨rfl, hsplit'⟩ := List.cons.inj hsplit
        rw [arrivals_cons_of_step h, departures]
        exact hrest pre post hsplit'

/-- The stretches of a run are its beginnings and the stretches of its rest. -/
theorem bounded_cons {s s' : σ} {a : α} (h : step s a = some s') (as : List α) :
    b.Bounded s (a :: as) ↔ b.HasRoom 0 s (a :: as) ∧ b.Bounded s' as := by
  constructor
  · intro hbound
    refine ⟨?_, ?_⟩
    · intro pre post hsplit
      rw [Nat.zero_add]
      exact hbound [] pre post s hsplit rfl
    · intro pre mid post m hsplit hm
      refine hbound (a :: pre) mid post m ?_ ?_
      · rw [hsplit, List.cons_append, List.cons_append]
      · rw [Runs.run_cons_of_step h]
        exact hm
  · rintro ⟨hroom, hbound⟩ pre mid post m hsplit hm
    cases pre with
    | nil =>
        cases hm
        simpa using hroom mid post hsplit
    | cons a' pre =>
        rw [List.cons_append, List.cons_append] at hsplit
        obtain ⟨rfl, hsplit'⟩ := List.cons.inj hsplit
        rw [Runs.run_cons_of_step h] at hm
        exact hbound pre mid post m hsplit' hm

theorem Bounded.hasRoom_zero {s : σ} {as : List α} (h : b.Bounded s as) : b.HasRoom 0 s as := by
  intro pre post hsplit
  rw [Nat.zero_add]
  exact h [] pre post s hsplit rfl

/-- What has been lost stays lost. -/
theorem lost_run {as : List α} {s t : σ} (hs : b.Inv s) (hlost : b.Lost s)
    (hrun : Runs.run step s as = some t) : b.Lost t := by
  refine (Runs.run_inv (P := fun s => b.Inv s ∧ b.Lost s) (G := fun _ => True) ?_ ⟨hs, hlost⟩
    (fun _ _ => trivial) hrun).2
  rintro s a s' ⟨hs, hlost⟩ _ hstep
  refine ⟨b.inv_step hs hstep, ?_⟩
  rcases Nat.lt_or_ge (cap + b.depart a) (b.len s + b.arrive s a) with hlt | hle
  · exact b.refuses hs hstep hlt
  · exact (b.admits hs hstep hle).2.mpr hlost

/-- From any state without a loss: nothing is lost exactly when there is room
for every beginning of the run and no stretch of it exceeds the capacity. -/
theorem lossless_from {as : List α} : ∀ {s t : σ}, b.Inv s → ¬ b.Lost s →
    Runs.run step s as = some t →
      (¬ b.Lost t ↔ b.HasRoom (b.len s) s as ∧ b.Bounded s as) := by
  induction as with
  | nil =>
      intro s t _ hlost hrun
      cases hrun
      refine iff_of_true hlost ⟨hasRoom_nil.mpr (b.len_le s), ?_⟩
      intro pre mid post m hsplit _
      rw [List.append_assoc] at hsplit
      obtain ⟨_, hrest⟩ := List.append_eq_nil_iff.mp hsplit.symm
      obtain ⟨rfl, _⟩ := List.append_eq_nil_iff.mp hrest
      exact Nat.zero_le _
  | cons a as ih =>
      intro s t hs hlost hrun
      obtain ⟨s', hstep, hrest⟩ := Runs.run_cons_eq_some.mp hrun
      have hs' := b.inv_step hs hstep
      rw [bounded_cons hstep, hasRoom_cons hstep, hasRoom_cons hstep]
      rcases Nat.lt_or_ge (cap + b.depart a) (b.len s + b.arrive s a) with hlt | hle
      · refine iff_of_false (not_not.mpr (lost_run hs' (b.refuses hs hstep hlt) hrest)) ?_
        rintro ⟨⟨_, hroom⟩, _⟩
        have hfirst := hroom [] as rfl
        simp only [arrivals, departures] at hfirst
        omega
      · obtain ⟨hlen, hiff⟩ := b.admits hs hstep hle
        rw [ih hs' (fun h => hlost (hiff.mp h)) hrest]
        have hcap := b.len_le s
        constructor
        · rintro ⟨hroom, hbound⟩
          have hroom' : ∀ pre post, as = pre ++ post →
              b.len s + (b.arrive s a + arrivals step b.arrive s' pre) ≤
                b.depart a + departures b.depart pre + cap := by
            intro pre post hsplit
            have hpre := hroom pre post hsplit
            omega
          refine ⟨⟨hcap, hroom'⟩, ⟨Nat.zero_le _, ?_⟩, hbound⟩
          intro pre post hsplit
          have hpre := hroom' pre post hsplit
          omega
        · rintro ⟨⟨_, hroom⟩, _, hbound⟩
          refine ⟨?_, hbound⟩
          intro pre post hsplit
          have hpre := hroom pre post hsplit
          -- where the step empties the buffer, the beginning is a stretch of its own
          have hzero := hbound.hasRoom_zero pre post hsplit
          omega

/-- **A run from an empty buffer loses nothing exactly when in no stretch of
it arrivals exceed departures by more than the capacity.** -/
theorem lossless_iff {as : List α} {s t : σ} (hs : b.Inv s) (hlen : b.len s = 0)
    (hlost : ¬ b.Lost s) (hrun : Runs.run step s as = some t) :
    ¬ b.Lost t ↔ b.Bounded s as := by
  rw [lossless_from hs hlost hrun, hlen]
  exact ⟨And.right, fun h => ⟨h.hasRoom_zero, h⟩⟩

end LossyBuffer

end Backlog
