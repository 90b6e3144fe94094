/-
# `Lib.EdgeLog` — replicating a set by a log of its edges

A source set changes one element at a time, and every change, an *edge*, is
appended to a log.  A replica takes the edges off the front of the log and
applies them.  Nothing but the edges ever reaches the replica, so what it
holds once the log is drained depends on every edge being there, once, and
in order.

`Valid S es` says that each edge of `es` changes the set it finds when the
log is applied to `S`; `Synced` is the invariant of the machine: the log is
valid for the replica, applying it gives the source, and the replica's
counter is its size.  `synced_run` keeps it over every run.
-/
import Mathlib.Data.Finset.Card
import SravzBackend.Lib.Runs

namespace EdgeLog

variable {τ : Type*} [DecidableEq τ]

/-- One change of a set of keys. -/
inductive Edge (τ : Type*) where
  | rise (t : τ)
  | fall (t : τ)
deriving DecidableEq

/-- What an edge makes of a set. -/
def after (S : Finset τ) : Edge τ → Finset τ
  | .rise t => insert t S
  | .fall t => S.erase t

/-- The edge changes the set. -/
def Enabled (S : Finset τ) : Edge τ → Prop
  | .rise t => t ∉ S
  | .fall t => t ∈ S

instance (S : Finset τ) (e : Edge τ) : Decidable (Enabled S e) :=
  match e with
  | .rise t => inferInstanceAs (Decidable (t ∉ S))
  | .fall t => inferInstanceAs (Decidable (t ∈ S))

/-- What a whole log makes of a set, oldest edge first. -/
def replay (S : Finset τ) (es : List (Edge τ)) : Finset τ := es.foldl after S

/-- Every edge of the log changes the set it finds. -/
def Valid : Finset τ → List (Edge τ) → Prop
  | _, [] => True
  | S, e :: es => Enabled S e ∧ Valid (after S e) es

@[simp]
theorem replay_nil (S : Finset τ) : replay S [] = S := rfl

@[simp]
theorem replay_cons (S : Finset τ) (e : Edge τ) (es : List (Edge τ)) :
    replay S (e :: es) = replay (after S e) es := rfl

@[simp]
theorem replay_append (S : Finset τ) (es es' : List (Edge τ)) :
    replay S (es ++ es') = replay (replay S es) es' :=
  List.foldl_append

theorem valid_append {S : Finset τ} {es es' : List (Edge τ)} :
    Valid S (es ++ es') ↔ Valid S es ∧ Valid (replay S es) es' := by
  induction es generalizing S with
  | nil => simp [Valid]
  | cons e es ih => simp only [List.cons_append, Valid, replay_cons, ih, and_assoc]

/-- An enabled edge moves the size by one, up or down. -/
theorem card_after {S : Finset τ} {e : Edge τ} (h : Enabled S e) :
    ((after S e).card : Int) =
      match e with
      | .rise _ => (S.card : Int) + 1
      | .fall _ => (S.card : Int) - 1 := by
  cases e with
  | rise t =>
      rw [after, Finset.card_insert_of_notMem h]
      rfl
  | fall t =>
      have hpos : 0 < S.card := Finset.card_pos.mpr ⟨t, h⟩
      rw [after, Finset.card_erase_of_mem h]
      simp only
      omega

theorem after_ne {S : Finset τ} {e : Edge τ} (h : Enabled S e) : after S e ≠ S := by
  intro heq
  have hcard := card_after h
  rw [heq] at hcard
  cases e <;> simp only at hcard <;> omega

/-! ## The machine -/

/-- The source set, the edges not yet delivered, the replica and its count. -/
structure Machine (τ : Type*) where
  source : Finset τ
  log : List (Edge τ)
  replica : Finset τ
  count : Int

/-- The source changes, or the replica takes the next edge. -/
inductive Move (τ : Type*) where
  | flip (e : Edge τ)
  | deliver

/-- The counter moves with the edge, whatever the set is. -/
def recount (n : Int) : Edge τ → Int
  | .rise _ => n + 1
  | .fall _ => n - 1

/-- A flip must change the source; a delivery needs an edge to deliver. -/
def step (m : Machine τ) : Move τ → Option (Machine τ)
  | .flip e =>
      if Enabled m.source e then
        some { m with source := after m.source e, log := m.log ++ [e] }
      else none
  | .deliver =>
      match m.log with
      | [] => none
      | e :: es =>
          some { m with log := es, replica := after m.replica e, count := recount m.count e }

theorem step_flip {m : Machine τ} {e : Edge τ} (h : Enabled m.source e) :
    step m (.flip e) = some { m with source := after m.source e, log := m.log ++ [e] } := by
  simp only [step, h, if_true]

theorem step_deliver {m : Machine τ} {e : Edge τ} {es : List (Edge τ)} (h : m.log = e :: es) :
    step m .deliver =
      some { m with log := es, replica := after m.replica e, count := recount m.count e } := by
  simp only [step, h]

/-- Source and replica both empty, nothing in flight. -/
def start : Machine τ := ⟨∅, [], ∅, 0⟩

/-- The log is valid for the replica and leads from it to the source, and
the counter is the replica's size. -/
structure Synced (m : Machine τ) : Prop where
  valid : Valid m.replica m.log
  replays : replay m.replica m.log = m.source
  counted : m.count = m.replica.card

theorem synced_start : Synced (start : Machine τ) :=
  ⟨trivial, rfl, rfl⟩

theorem synced_step {m m' : Machine τ} {a : Move τ} (h : Synced m)
    (hstep : step m a = some m') : Synced m' := by
  cases a with
  | flip e =>
      simp only [step, Option.ite_none_right_eq_some, Option.some.injEq] at hstep
      obtain ⟨he, rfl⟩ := hstep
      refine ⟨?_, ?_, h.counted⟩
      · rw [valid_append, h.replays]
        exact ⟨h.valid, he, trivial⟩
      · rw [replay_append, h.replays]
        rfl
  | deliver =>
      obtain ⟨source, log, replica, count⟩ := m
      cases log with
      | nil => simp [step] at hstep
      | cons e es =>
          simp only [step, Option.some.injEq] at hstep
          subst hstep
          obtain ⟨⟨he, hes⟩, hreplay, hcount⟩ := h
          refine ⟨hes, hreplay, ?_⟩
          simp only at hcount ⊢
          rw [card_after he]
          cases e <;> simp only [recount, hcount]

/-- **Every run of the machine keeps source and replica synced.** -/
theorem synced_run {as : List (Move τ)} {m : Machine τ}
    (h : Runs.run step start as = some m) : Synced m :=
  Runs.run_inv (G := fun _ => True) (fun hs _ ha => synced_step hs ha) synced_start
    (fun _ _ => trivial) h

/-- The next edge a synced replica takes changes it. -/
theorem Synced.enabled_head {m : Machine τ} (h : Synced m) {e : Edge τ}
    {es : List (Edge τ)} (hlog : m.log = e :: es) : Enabled m.replica e := by
  have hvalid := h.valid
  rw [hlog] at hvalid
  exact hvalid.1

end EdgeLog
