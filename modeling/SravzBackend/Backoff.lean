/-
# `Backoff` — `get_message_with_backoff`

The consumer of a queue polls it, and sleeps where it is empty: for 1 s at
first, twice as long every time up to 32 s, and then for 1 s again.  Every call
starts from 1 s.  A push does not wake it, and a push to a full queue is
dropped, so what the producer may push while the consumer sleeps is bounded by
the capacity.

`nothing_dropped_iff`: of the rates at which messages may be pushed, those at
which nothing is ever dropped are the ones that fill the queue in no 32 s.
-/
import SravzBackend.Lib.BoundedQueue
import SravzBackend.Lib.Rate
import SravzBackend.Lib.Runs

namespace SravzBackend

def exponentialBackoffLimit : Nat := 5

/-- The longest sleep: `1 << EXPONENTIAL_BACKOFF_LIMIT`. -/
def longestSleep : Nat := 1 <<< exponentialBackoffLimit

/-- The local `backoff` of a call, and how many seconds its `sleep` has still
to run: none while it polls. -/
structure Backoff where
  backoff : Nat
  asleep : Nat
  within : backoff ≤ exponentialBackoffLimit
  bounded : asleep ≤ longestSleep

namespace Backoff

/-- A call begins. -/
def start : Backoff := ⟨0, 0, Nat.zero_le _, Nat.zero_le _⟩

/-- `sleep(1 << backoff++)`, and the reset of `backoff`. -/
def sleep (x : Backoff) : Backoff where
  backoff := if x.backoff + 1 > exponentialBackoffLimit then 0 else x.backoff + 1
  asleep := 1 <<< x.backoff
  within := by
    split
    · exact Nat.zero_le _
    · next hwithin => exact Nat.le_of_not_lt hwithin
  bounded := by
    rw [longestSleep, Nat.one_shiftLeft, Nat.one_shiftLeft]
    exact Nat.pow_le_pow_right Nat.two_pos x.within

/-- After an iteration: another try, or the next call. -/
def polled (x : Backoff) (empty : Bool) : Backoff := if empty then x.sleep else .start

/-- A second of the sleep. -/
def second (x : Backoff) : Backoff :=
  { x with asleep := x.asleep - 1, bounded := (Nat.sub_le _ _).trans x.bounded }

/-- A signal that is handled makes `sleep` return. -/
def interrupted (x : Backoff) : Backoff := { x with asleep := 0, bounded := Nat.zero_le _ }

end Backoff

variable {α : Type}

/-! ## A queue and its consumer -/

/-- `returned` are the messages that the calls have returned, oldest first. -/
structure Consumer (α : Type) where
  queue : BoundedQueue α 1024
  backoff : Backoff
  returned : List α

namespace Consumer

def start : Consumer α := ⟨.empty, .start, []⟩

/-- The producer's `queue.push(msg)`; its answer is not looked at. -/
def push (x : Consumer α) (msg : α) : Consumer α := { x with queue := (x.queue.push msg).1 }

/-- An iteration of the loop; one that returns is followed by the next call. -/
def pop (x : Consumer α) : Consumer α :=
  match x.queue.pop with
  | some (msg, queue) =>
      { queue := queue, backoff := x.backoff.polled false, returned := x.returned ++ [msg] }
  | none => { x with backoff := x.backoff.polled true }

end Consumer

inductive ConsumerAction (α : Type) where
  | push (msg : α)
  | pop
  | second
  | interrupted

def consumerStep (x : Consumer α) : ConsumerAction α → Option (Consumer α)
  | .push msg => some (x.push msg)
  | .pop => if x.backoff.asleep = 0 then some x.pop else none
  | .second =>
      if 0 < x.backoff.asleep then some { x with backoff := x.backoff.second } else none
  | .interrupted =>
      if 0 < x.backoff.asleep then some { x with backoff := x.backoff.interrupted } else none

namespace ConsumerAction

def isSecond : ConsumerAction α → Bool
  | second => true
  | _ => false

def message : ConsumerAction α → Option α
  | push msg => some msg
  | _ => none

def isPush (a : ConsumerAction α) : Bool := a.message.isSome

/-- The messages pushed, whether there was room or not. -/
def pushed (as : List (ConsumerAction α)) : List α := as.filterMap message

theorem length_pushed (as : List (ConsumerAction α)) : (pushed as).length = as.countP isPush :=
  List.length_filterMap_eq_countP

theorem not_isPush_of_isSecond (a : ConsumerAction α) (h : a.isSecond = true) :
    ¬ a.isPush = true := by
  cases a <;> cases h
  exact Bool.false_ne_true

end ConsumerAction

open ConsumerAction

/-! ## What waits was pushed while the consumer slept -/

/-- Nothing has been dropped, and what waits was pushed in the last of the
run, over which the seconds slept and those still to sleep are those of one
sleep. -/
structure Consumer.KeepsUp (as : List (ConsumerAction α)) (x : Consumer α) : Prop where
  whole : x.returned ++ x.queue.items = pushed as
  recent : Rate.Lately isSecond longestSleep as x.backoff.asleep fun _ recent =>
    x.queue.items.length ≤ recent.countP isPush

theorem keepsUp_start : (Consumer.start : Consumer α).KeepsUp [] :=
  ⟨rfl, Rate.lately_renew (Nat.le_refl _) (Nat.zero_le _)⟩

/-- A step that pushes nothing and puts off no second. -/
theorem Consumer.KeepsUp.quiet {as : List (ConsumerAction α)} {x x' : Consumer α}
    (h : x.KeepsUp as) {a : ConsumerAction α} (hmessage : a.message = none)
    (hwhole : x'.returned ++ x'.queue.items = x.returned ++ x.queue.items)
    (hlength : x'.queue.items.length ≤ x.queue.items.length)
    (hasleep : [a].countP isSecond + x'.backoff.asleep ≤ x.backoff.asleep) :
    x'.KeepsUp (as ++ [a]) := by
  refine ⟨?_, h.recent.concat hasleep ?_⟩
  · have hnone : pushed [a] = [] := List.filterMap_cons_none hmessage
    have happend : pushed (as ++ [a]) = pushed as ++ pushed [a] := List.filterMap_append
    rw [hwhole, h.whole, happend, hnone, List.append_nil]
  · intro old recent _ hpushes
    rw [List.countP_append]
    exact (hlength.trans hpushes).trans (Nat.le_add_right _ _)

theorem keepsUp_step {w b : Nat} (hroom : b * (longestSleep / (w + 1) + 1) ≤ 1024)
    {as : List (ConsumerAction α)} {a : ConsumerAction α} {x x' : Consumer α}
    (hrate : Rate.AtMost isSecond isPush w b (as ++ [a])) (h : x.KeepsUp as)
    (hstep : consumerStep x a = some x') : x'.KeepsUp (as ++ [a]) := by
  cases a with
  | push msg =>
      cases hstep
      have hrecent : Rate.Lately isSecond longestSleep (as ++ [push msg]) x.backoff.asleep
          fun _ recent => x.queue.items.length + 1 ≤ recent.countP isPush := by
        refine h.recent.concat (Nat.le_of_eq (Nat.zero_add _)) fun old recent _ hpushes => ?_
        rw [List.countP_append]
        exact Nat.succ_le_succ hpushes
      obtain ⟨_, recent, _, hpushes, hbound⟩ := hrecent.countP_le not_isPush_of_isSecond hrate
      have hfits : x.queue.items.length < 1024 := hpushes.trans (hbound.trans hroom)
      have hitems : (x.push msg).queue.items = x.queue.items ++ [msg] :=
        (BoundedQueue.push_of_room hfits msg).1
      refine ⟨?_, ?_⟩
      · rw [hitems, ← List.append_assoc, pushed, List.filterMap_append]
        exact congrArg (· ++ [msg]) h.whole
      · rw [hitems, List.length_append]
        exact hrecent
  | pop =>
      obtain ⟨hawake, rfl⟩ := Option.ite_some_none_eq_some.mp hstep
      unfold Consumer.pop
      split
      · next msg queue hpop =>
          have hitems := BoundedQueue.pop_eq_some.mp hpop
          refine h.quiet rfl ?_ ?_ (Nat.zero_le _)
          · rw [hitems, List.append_assoc]
            rfl
          · rw [hitems]
            exact Nat.le_succ _
      · next hpop =>
          -- the queue is empty, and the stretch begins anew
          have hitems := BoundedQueue.pop_eq_none.mp hpop
          refine ⟨?_, Rate.lately_renew ?_ x.backoff.sleep.bounded⟩
          · rw [h.whole, pushed, pushed, List.filterMap_append]
            exact (List.append_nil _).symm
          · exact hitems ▸ Nat.le_refl 0
  | second =>
      obtain ⟨hasleep, rfl⟩ := Option.ite_some_none_eq_some.mp hstep
      refine h.quiet rfl rfl (Nat.le_refl _) ?_
      show 1 + (x.backoff.asleep - 1) ≤ x.backoff.asleep
      omega
  | interrupted =>
      obtain ⟨_, rfl⟩ := Option.ite_some_none_eq_some.mp hstep
      exact h.quiet rfl rfl (Nat.le_refl _) (Nat.zero_le _)

theorem keepsUp_run {w b : Nat} (hroom : b * (longestSleep / (w + 1) + 1) ≤ 1024)
    {as : List (ConsumerAction α)} {x : Consumer α}
    (hrate : Rate.AtMost isSecond isPush w b as)
    (hrun : Runs.run consumerStep .start as = some x) : x.KeepsUp as := by
  refine Runs.run_inv_history (P := fun as x => Rate.AtMost isSecond isPush w b as → x.KeepsUp as)
    (fun _ => keepsUp_start) ?_ hrun hrate
  intro pre x a x' _ h hstep hrate
  exact keepsUp_step hroom hrate (h (hrate.mono (List.prefix_append pre [a]).isInfix)) hstep

/-! ## Nothing less will do -/

/-- The first five sleeps, and the poll before the longest. -/
def untilLongestSleep : List (ConsumerAction α) :=
  (List.range exponentialBackoffLimit).flatMap
    (fun i => pop :: List.replicate (1 <<< i) second) ++ [pop]

theorem run_untilLongestSleep :
    Runs.run consumerStep (Consumer.start : Consumer α) untilLongestSleep =
      some ⟨.empty, ⟨0, longestSleep, Nat.zero_le _, Nat.le_refl _⟩, []⟩ := rfl

/-- While the consumer sleeps, whatever is pushed stays in the queue. -/
theorem run_asleep {as : List (ConsumerAction α)}
    (hkinds : ∀ a ∈ as, a.isPush = true ∨ a = second) {x : Consumer α}
    (hasleep : as.countP isSecond ≤ x.backoff.asleep) :
    ∃ x', Runs.run consumerStep x as = some x' ∧ x'.returned = x.returned := by
  induction as generalizing x with
  | nil => exact ⟨x, rfl, rfl⟩
  | cons a as ih =>
      have hrest := fun c hc => hkinds c (List.mem_cons_of_mem a hc)
      cases a with
      | push msg => exact ih (x := x.push msg) hrest hasleep
      | pop => rcases hkinds pop List.mem_cons_self with h | h <;> cases h
      | second =>
          rw [List.countP_cons_of_pos rfl] at hasleep
          have hpos : 0 < x.backoff.asleep := (Nat.succ_pos _).trans_le hasleep
          obtain ⟨x', hrun, hreturned⟩ :=
            ih (x := { x with backoff := x.backoff.second }) hrest (Nat.le_sub_one_of_lt hasleep)
          exact ⟨x', by rwa [Runs.run_cons_of_step (if_pos hpos)], hreturned⟩
      | interrupted => rcases hkinds interrupted List.mem_cons_self with h | h <;> cases h

/-- The most that a rate allows, pushed over the longest sleep. -/
def worstCase (msg : α) (w b : Nat) : List (ConsumerAction α) :=
  untilLongestSleep ++ Rate.bursts second (push msg) w b (longestSleep / (w + 1))

theorem atMost_worstCase (msg : α) (w b : Nat) :
    Rate.AtMost isSecond isPush w b (worstCase msg w b) :=
  (Rate.atMost_bursts rfl Bool.false_ne_true _).append_left rfl

theorem countP_worstCase (msg : α) (w b : Nat) :
    (worstCase msg w b).countP isPush = b * (longestSleep / (w + 1) + 1) := by
  rw [worstCase, List.countP_append, Rate.countP_bursts Bool.false_ne_true rfl]
  exact Nat.zero_add _

theorem run_worstCase (msg : α) (w b : Nat) :
    ∃ x, Runs.run consumerStep .start (worstCase msg w b) = some x ∧ x.returned = [] := by
  rw [worstCase, Runs.run_append_of_run run_untilLongestSleep]
  refine run_asleep ?_ ?_
  · intro a ha
    rcases Rate.eq_or_eq_of_mem_bursts ha with rfl | rfl
    · exact .inl rfl
    · exact .inr rfl
  · rw [Rate.countP_tick_bursts rfl Bool.false_ne_true]
    exact Nat.div_mul_le_self _ _

/-- **A rate of at most `b` messages over any `w` seconds of sleep is one at
which in every run, however the pushes, the polls, the seconds and signals are
interleaved, everything pushed is returned in its order or waits in the queue,
exactly when the queue has room for the bursts of 32 s.** -/
theorem nothing_dropped_iff [Inhabited α] (w b : Nat) :
    (∀ (as : List (ConsumerAction α)) x, Rate.AtMost isSecond isPush w b as →
        Runs.run consumerStep .start as = some x → x.returned ++ x.queue.items = pushed as) ↔
      b * (32 / (w + 1) + 1) ≤ 1024 := by
  constructor
  · intro h
    obtain ⟨x, hrun, hreturned⟩ := run_worstCase (default : α) w b
    have hwhole := h _ x (atMost_worstCase default w b) hrun
    have hlength := length_pushed (worstCase (default : α) w b)
    rw [← hwhole, hreturned, List.nil_append, countP_worstCase] at hlength
    exact hlength ▸ x.queue.fits
  · intro hroom as x hrate hrun
    exact (keepsUp_run hroom hrate hrun).whole

end SravzBackend
