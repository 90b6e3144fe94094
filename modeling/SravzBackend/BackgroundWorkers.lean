/-
# `BackgroundWorkers` — one thread pool for the wait and for what it waits for

`webserver` runs `ioc_background_worker` on `threads - 1` threads.  A
`GET /fundamentals` request that misses the cache and S3 occupies one of them:
`FetchDataAndSaveToS3` has `httpGet` spawn a coroutine and then sits in
`future.get()` until the coroutine has set the promise.  The coroutine runs on
a strand of the same `ioc_background_worker`, so each of its steps needs one
of the same threads.  Whether `spawn` runs the first step on the calling
thread, where the strand is free, or queues it with the others is up to the
library, and nothing here depends on it.

The system here is the pool with any number of such requests, every order of
arrival and every scheduling of what is queued.  `no_deadlock_iff`: with `n`
configured threads and never more than `k` requests in flight, no reachable
state has all background threads blocked on fetches one of which is waiting
for a thread, if and only if `k < n - 1`.  `blocked_forever` says that from
such a state there is no way out.
-/
import Mathlib.Data.Finset.Card
import Mathlib.Data.Fintype.Card
import SravzBackend.Lib.Runs

namespace SravzBackend.BackgroundWorkers

/-! ## The coroutine of `DataProvider::httpGet_` -/

inductive AsyncOp where
  | resolve
  | connect
  | handshake
  | write
  | read
  | shutdown
deriving DecidableEq

/-- Where a step of the coroutine begins: at the top, where setting the SNI
host name may fail, or after an asynchronous operation and its error code. -/
inductive Resume where
  | entry (sniFails : Bool)
  | after (op : AsyncOp) (ec : Bool)
deriving DecidableEq

inductive Coroutine where
  | queued (point : Resume)
  | running (point : Resume)
  | suspended (op : AsyncOp)
  | ended (promiseSet : Bool)
deriving DecidableEq

/-- One step of `httpGet_`, up to its next asynchronous operation or its end.
Only the path through `shutdown`, whose error is ignored, calls back. -/
def httpGetStep : Resume → Coroutine
  | .entry sniFails => if sniFails then .ended false else .suspended .resolve
  | .after .resolve ec => if ec then .ended false else .suspended .connect
  | .after .connect ec => if ec then .ended false else .suspended .handshake
  | .after .handshake ec => if ec then .ended false else .suspended .write
  | .after .write ec => if ec then .ended false else .suspended .read
  | .after .read ec => if ec then .ended false else .suspended .shutdown
  | .after .shutdown _ => .ended true

/-! ## The pool -/

/-- What a background thread is doing: nothing, a request before its fetch, a
request inside `spawn` with the first step of its own fetch, a request inside
`future.get()`, or a step of a request's coroutine. -/
inductive Worker where
  | idle
  | handling (r : Nat)
  | starting (r : Nat)
  | waiting (r : Nat)
  | stepping (r : Nat)
deriving DecidableEq

/-- The pool of `w` threads; requests are numbered. -/
structure Pool (w : Nat) where
  workers : Fin w → Worker
  queue : Finset Nat
  fetches : Nat → Option Coroutine
  arrived : Finset Nat
  answered : Finset Nat

def Pool.start (w : Nat) : Pool w := ⟨fun _ => .idle, ∅, fun _ => none, ∅, ∅⟩

/-- The threads `webserver` starts for `ioc_background_worker`. -/
def backgroundThreads (threads : Nat) : Nat := threads - 1

def Pool.setWorker {w : Nat} (p : Pool w) (i : Fin w) (x : Worker) : Pool w :=
  { p with workers := Function.update p.workers i x }

def Pool.setFetch {w : Nat} (p : Pool w) (r : Nat) (c : Coroutine) : Pool w :=
  { p with fetches := Function.update p.fetches r (some c) }

/-- The coroutine a thread is running a step of, and what the thread does
after the step. -/
def Worker.inStrand : Worker → Option (Nat × Worker)
  | .starting r => some (r, .waiting r)
  | .stepping r => some (r, .idle)
  | _ => none

/-- No thread is running a step of a coroutine: the strand is free. -/
def Pool.strandFree {w : Nat} (p : Pool w) : Bool :=
  decide (∀ i, (p.workers i).inStrand = none)

inductive Action (w : Nat) where
  | arrive (r : Nat)
  | take (i : Fin w) (r : Nat)
  | spawn (i : Fin w) (sniFails : Bool)
  | resume (i : Fin w) (r : Nat)
  | yield (i : Fin w)
  | complete (r : Nat) (ec : Bool)
  | getReturns (i : Fin w)

/-- A request is posted; an idle thread takes it; the thread spawns the fetch,
whose first step it runs itself or leaves to another, and blocks; an idle
thread takes up a step of a coroutine; the step is over; an operation
completes, which queues the next step; a set promise lets the blocked thread
go on, put the object and answer.  The `spawn` of two arguments, whose result is
dropped, is taken to launch the coroutine. -/
def step {w : Nat} (startsAtOnce : Pool w → Bool) (p : Pool w) : Action w → Option (Pool w)
  | .arrive r =>
      if r ∈ p.arrived then none
      else some { p with queue := insert r p.queue, arrived := insert r p.arrived }
  | .take i r =>
      match p.workers i with
      | .idle =>
          if r ∈ p.queue then some ({ p with queue := p.queue.erase r }.setWorker i (.handling r))
          else none
      | _ => none
  | .spawn i sniFails =>
      match p.workers i with
      | .handling r =>
          if startsAtOnce p && p.strandFree then
            some ((p.setFetch r (.running (.entry sniFails))).setWorker i (.starting r))
          else some ((p.setFetch r (.queued (.entry sniFails))).setWorker i (.waiting r))
      | _ => none
  | .resume i r =>
      match p.workers i, p.fetches r with
      | .idle, some (.queued point) =>
          if p.strandFree then some ((p.setFetch r (.running point)).setWorker i (.stepping r))
          else none
      | _, _ => none
  | .yield i =>
      match (p.workers i).inStrand with
      | some (r, next) =>
          match p.fetches r with
          | some (.running point) => some ((p.setFetch r (httpGetStep point)).setWorker i next)
          | _ => none
      | none => none
  | .complete r ec =>
      match p.fetches r with
      | some (.suspended op) => some (p.setFetch r (.queued (.after op ec)))
      | _ => none
  | .getReturns i =>
      match p.workers i with
      | .waiting r =>
          if p.fetches r = some (.ended true) then
            some ({ p with answered := insert r p.answered }.setWorker i .idle)
          else none
      | _ => none

/-- The requests that have arrived and have not been answered. -/
def Pool.inFlight {w : Nat} (p : Pool w) : Finset Nat := p.arrived \ p.answered

/-- The thread is inside `future.get()` and the promise is not set. -/
def Pool.Blocked {w : Nat} (p : Pool w) (i : Fin w) : Prop :=
  ∃ r, p.workers i = .waiting r ∧ p.fetches r ≠ some (.ended true)

/-- Every thread is blocked, and the coroutine of a fetch that one of them
waits for is itself waiting for a thread. -/
def Pool.Deadlocked {w : Nat} (p : Pool w) : Prop :=
  (∀ i, p.Blocked i) ∧
    ∃ i r point, p.workers i = .waiting r ∧ p.fetches r = some (.queued point)

/-! ## What a thread owes -/

/-- The request a thread has taken and not yet answered. -/
def Worker.request : Worker → Option Nat
  | .handling r => some r
  | .starting r => some r
  | .waiting r => some r
  | _ => none

/-- Every request taken is in flight, out of the queue, and on one thread. -/
structure Owned {w : Nat} (p : Pool w) : Prop where
  answered : p.answered ⊆ p.arrived
  queued : ∀ r ∈ p.queue, r ∈ p.inFlight
  taken : ∀ i r, (p.workers i).request = some r → r ∈ p.inFlight ∧ r ∉ p.queue
  once : ∀ i j r, (p.workers i).request = some r → (p.workers j).request = some r → i = j

variable {w : Nat} {startsAtOnce : Pool w → Bool}

/-- A step of a coroutine leaves the thread with the request it had. -/
theorem request_of_inStrand {x next : Worker} {r : Nat} (h : x.inStrand = some (r, next)) :
    next.request = x.request := by
  cases x with
  | starting r' =>
      cases h
      rfl
  | stepping r' =>
      cases h
      rfl
  | _ => cases h

theorem owned_start (w : Nat) : Owned (Pool.start w) where
  answered := Finset.Subset.refl _
  queued := fun _ hr => absurd hr (Finset.notMem_empty _)
  taken := fun _ _ h => absurd h (by simp [Pool.start, Worker.request])
  once := fun _ _ _ h => absurd h (by simp [Pool.start, Worker.request])

theorem request_setWorker (p : Pool w) (i j : Fin w) (x : Worker) :
    ((p.setWorker i x).workers j).request =
      if j = i then x.request else (p.workers j).request := by
  by_cases h : j = i
  · subst h
    simp [Pool.setWorker]
  · simp [Pool.setWorker, h]

/-! ### What each step needs and does -/

theorem step_arrive {p p' : Pool w} {r : Nat} : step startsAtOnce p (.arrive r) = some p' ↔
    r ∉ p.arrived ∧
      p' = { p with queue := insert r p.queue, arrived := insert r p.arrived } := by
  simp only [step]
  split <;> simp_all [@eq_comm _ p']

theorem step_take {p p' : Pool w} {i : Fin w} {r : Nat} : step startsAtOnce p (.take i r) = some p' ↔
    p.workers i = .idle ∧ r ∈ p.queue ∧
      p' = { p with queue := p.queue.erase r }.setWorker i (.handling r) := by
  cases hi : p.workers i <;> simp [step, hi, @eq_comm _ p']

theorem step_spawn {p p' : Pool w} {i : Fin w} {sniFails : Bool} :
    step startsAtOnce p (.spawn i sniFails) = some p' ↔ ∃ r, p.workers i = .handling r ∧
      p' = if startsAtOnce p && p.strandFree then
          (p.setFetch r (.running (.entry sniFails))).setWorker i (.starting r)
        else (p.setFetch r (.queued (.entry sniFails))).setWorker i (.waiting r) := by
  cases hi : p.workers i with
  | handling r =>
      by_cases hnow : (startsAtOnce p && p.strandFree) = true <;>
        simp [step, hi, hnow, @eq_comm _ p']
  | _ => simp [step, hi]

theorem step_resume {p p' : Pool w} {i : Fin w} {r : Nat} : step startsAtOnce p (.resume i r) = some p' ↔
    ∃ point, p.workers i = .idle ∧ p.fetches r = some (.queued point) ∧ p.strandFree ∧
      p' = (p.setFetch r (.running point)).setWorker i (.stepping r) := by
  cases hi : p.workers i with
  | idle =>
      rcases hr : p.fetches r with _ | (_ | _ | _ | _) <;> simp [step, hi, hr, @eq_comm _ p']
  | _ => simp [step, hi]

theorem step_yield {p p' : Pool w} {i : Fin w} : step startsAtOnce p (.yield i) = some p' ↔
    ∃ r next point, (p.workers i).inStrand = some (r, next) ∧
      p.fetches r = some (.running point) ∧
      p' = (p.setFetch r (httpGetStep point)).setWorker i next := by
  cases hi : (p.workers i).inStrand with
  | none => simp [step, hi]
  | some x =>
      obtain ⟨r, next⟩ := x
      rcases hr : p.fetches r with _ | (_ | _ | _ | _) <;>
        simp [step, hi, hr, and_assoc, @eq_comm _ p']

theorem step_complete {p p' : Pool w} {r : Nat} {ec : Bool} :
    step startsAtOnce p (.complete r ec) = some p' ↔ ∃ op, p.fetches r = some (.suspended op) ∧
      p' = p.setFetch r (.queued (.after op ec)) := by
  rcases hr : p.fetches r with _ | (_ | _ | _ | _) <;> simp [step, hr, @eq_comm _ p']

theorem step_getReturns {p p' : Pool w} {i : Fin w} : step startsAtOnce p (.getReturns i) = some p' ↔
    ∃ r, p.workers i = .waiting r ∧ p.fetches r = some (.ended true) ∧
      p' = { p with answered := insert r p.answered }.setWorker i .idle := by
  cases hi : p.workers i <;> simp [step, hi, @eq_comm _ p']

/-! ### Ownership is kept -/

/-- A step that moves no request keeps the ownership. -/
theorem Owned.congr {p p' : Pool w} (h : Owned p)
    (hreq : ∀ i, (p'.workers i).request = (p.workers i).request)
    (hqueue : p'.queue = p.queue) (harrived : p'.arrived = p.arrived)
    (hanswered : p'.answered = p.answered) : Owned p' := by
  have hflight : p'.inFlight = p.inFlight := by
    rw [Pool.inFlight, harrived, hanswered, Pool.inFlight]
  constructor
  · rw [harrived, hanswered]
    exact h.answered
  · rw [hqueue, hflight]
    exact h.queued
  · intro i r hi
    rw [hqueue, hflight]
    exact h.taken i r (by rw [← hreq]; exact hi)
  · intro i j r hi hj
    exact h.once i j r (by rw [← hreq]; exact hi) (by rw [← hreq]; exact hj)

theorem Owned.congr_setWorker {p : Pool w} (h : Owned p) {i : Fin w} {x : Worker}
    (hx : x.request = (p.workers i).request) (r : Nat) (c : Coroutine) :
    Owned ((p.setFetch r c).setWorker i x) := by
  refine h.congr ?_ rfl rfl rfl
  intro j
  rw [request_setWorker]
  split
  · next hj => rw [hj, hx]
  · rfl

theorem Owned.arrive {p : Pool w} (h : Owned p) {r : Nat} (hr : r ∉ p.arrived) :
    Owned { p with queue := insert r p.queue, arrived := insert r p.arrived } := by
  have hkeep : ∀ r' ∈ p.inFlight, r' ≠ r ∧ r' ∈ insert r p.arrived \ p.answered := by
    intro r' hr'
    obtain ⟨harr, hans⟩ := Finset.mem_sdiff.mp hr'
    refine ⟨?_, Finset.mem_sdiff.mpr ⟨Finset.mem_insert_of_mem harr, hans⟩⟩
    rintro rfl
    exact hr harr
  constructor
  · exact h.answered.trans (Finset.subset_insert r p.arrived)
  · intro r' hr'
    rcases Finset.mem_insert.mp hr' with rfl | hr'
    · exact Finset.mem_sdiff.mpr ⟨Finset.mem_insert_self r' p.arrived, fun hans =>
        hr (h.answered hans)⟩
    · exact (hkeep r' (h.queued r' hr')).2
  · intro i r' hi
    obtain ⟨hflight, hqueue⟩ := h.taken i r' hi
    obtain ⟨hne, hmem⟩ := hkeep r' hflight
    refine ⟨hmem, ?_⟩
    rw [Finset.mem_insert, not_or]
    exact ⟨hne, hqueue⟩
  · exact h.once

theorem Owned.take {p : Pool w} (h : Owned p) {i : Fin w} {r : Nat} (hi : p.workers i = .idle)
    (hr : r ∈ p.queue) :
    Owned ({ p with queue := p.queue.erase r }.setWorker i (.handling r)) := by
  have hreq : ∀ j r', (({ p with queue := p.queue.erase r }.setWorker i
      (.handling r)).workers j).request = some r' →
      (j = i ∧ r' = r) ∨ (j ≠ i ∧ (p.workers j).request = some r') := by
    intro j r' hj
    rw [request_setWorker] at hj
    split at hj
    · next hji => exact Or.inl ⟨hji, (Option.some.inj hj).symm⟩
    · next hji => exact Or.inr ⟨hji, hj⟩
  have hfree : ∀ j, (p.workers j).request ≠ some r := fun j hj => (h.taken j r hj).2 hr
  constructor
  · exact h.answered
  · intro r' hr'
    exact h.queued r' (Finset.mem_of_mem_erase hr')
  · intro j r' hj
    rcases hreq j r' hj with ⟨_, rfl⟩ | ⟨_, hj'⟩
    · exact ⟨h.queued r' hr, Finset.notMem_erase r' p.queue⟩
    · obtain ⟨hflight, hqueue⟩ := h.taken j r' hj'
      exact ⟨hflight, fun hmem => hqueue (Finset.mem_of_mem_erase hmem)⟩
  · intro j j' r' hj hj'
    rcases hreq j r' hj with ⟨rfl, rfl⟩ | ⟨_, hjr⟩
    · rcases hreq j' r' hj' with ⟨rfl, _⟩ | ⟨_, hjr'⟩
      · rfl
      · exact absurd hjr' (hfree j')
    · rcases hreq j' r' hj' with ⟨_, rfl⟩ | ⟨_, hjr'⟩
      · exact absurd hjr (hfree j)
      · exact h.once j j' r' hjr hjr'

theorem Owned.getReturns {p : Pool w} (h : Owned p) {i : Fin w} {r : Nat}
    (hi : p.workers i = .waiting r) :
    Owned ({ p with answered := insert r p.answered }.setWorker i .idle) := by
  have hreq : ∀ j r', (({ p with answered := insert r p.answered }.setWorker i
      .idle).workers j).request = some r' → j ≠ i ∧ (p.workers j).request = some r' := by
    intro j r' hj
    rw [request_setWorker] at hj
    split at hj
    · cases hj
    · next hji => exact ⟨hji, hj⟩
  have hir : (p.workers i).request = some r := by rw [hi]; rfl
  have hkeep : ∀ r' ∈ p.inFlight, r' ≠ r → r' ∈ p.arrived \ insert r p.answered := by
    intro r' hr' hne
    obtain ⟨harr, hans⟩ := Finset.mem_sdiff.mp hr'
    refine Finset.mem_sdiff.mpr ⟨harr, ?_⟩
    rw [Finset.mem_insert, not_or]
    exact ⟨hne, hans⟩
  constructor
  · exact Finset.insert_subset (Finset.mem_sdiff.mp (h.taken i r hir).1).1 h.answered
  · intro r' hr'
    refine hkeep r' (h.queued r' hr') ?_
    rintro rfl
    exact (h.taken i r' hir).2 hr'
  · intro j r' hj
    obtain ⟨hji, hj'⟩ := hreq j r' hj
    obtain ⟨hflight, hqueue⟩ := h.taken j r' hj'
    refine ⟨hkeep r' hflight ?_, hqueue⟩
    rintro rfl
    exact hji (h.once j i r' hj' hir)
  · intro j j' r' hj hj'
    exact h.once j j' r' (hreq j r' hj).2 (hreq j' r' hj').2

theorem Owned.step {p p' : Pool w} (h : Owned p) {a : Action w}
    (hstep : step startsAtOnce p a = some p') : Owned p' := by
  cases a with
  | arrive r =>
      obtain ⟨hr, rfl⟩ := step_arrive.mp hstep
      exact h.arrive hr
  | take i r =>
      obtain ⟨hi, hr, rfl⟩ := step_take.mp hstep
      exact h.take hi hr
  | spawn i sniFails =>
      obtain ⟨r, hi, rfl⟩ := step_spawn.mp hstep
      split
      · exact h.congr_setWorker (by rw [hi]; rfl) _ _
      · exact h.congr_setWorker (by rw [hi]; rfl) _ _
  | resume i r =>
      obtain ⟨point, hi, _, _, rfl⟩ := step_resume.mp hstep
      exact h.congr_setWorker (by rw [hi]; rfl) _ _
  | yield i =>
      obtain ⟨r, next, point, hi, _, rfl⟩ := step_yield.mp hstep
      exact h.congr_setWorker (request_of_inStrand hi) _ _
  | complete r ec =>
      obtain ⟨op, _, rfl⟩ := step_complete.mp hstep
      exact h.congr (fun _ => rfl) rfl rfl rfl
  | getReturns i =>
      obtain ⟨r, hi, _, rfl⟩ := step_getReturns.mp hstep
      exact h.getReturns hi

/-- There are at least as many requests in flight as blocked threads. -/
theorem Owned.card_le {p : Pool w} (h : Owned p) (hall : ∀ i, p.Blocked i) :
    w ≤ p.inFlight.card := by
  choose r hr using hall
  have hreq : ∀ i, (p.workers i).request = some (r i) := fun i => by rw [(hr i).1]; rfl
  have hinj : Function.Injective r := fun i j hij =>
    h.once i j (r j) (by rw [hreq i, hij]) (hreq j)
  have hcard := Finset.card_le_card_of_injOn r
    (fun i (_ : i ∈ (Finset.univ : Finset (Fin w))) => (h.taken i (r i) (hreq i)).1) hinj.injOn
  simpa using hcard

/-! ## No way out -/

/-- Once every thread is blocked, every thread stays blocked. -/
theorem blocked_forever {p p' : Pool w} {as : List (Action w)} (hall : ∀ i, p.Blocked i)
    (hrun : Runs.run (step startsAtOnce) p as = some p') : ∀ i, p'.Blocked i := by
  refine Runs.run_inv (P := fun p => ∀ i, Pool.Blocked p i) (G := fun _ => True)
    ?_ hall (fun _ _ => trivial) hrun
  intro p a p' hall _ hstep
  have hwaiting : ∀ i x, p.workers i = x → ∃ r, x = .waiting r := by
    rintro i x rfl
    obtain ⟨r, hr, _⟩ := hall i
    exact ⟨r, hr⟩
  cases a with
  | arrive r =>
      obtain ⟨_, rfl⟩ := step_arrive.mp hstep
      exact hall
  | take i r =>
      obtain ⟨hi, _⟩ := step_take.mp hstep
      obtain ⟨_, hx⟩ := hwaiting i _ hi
      cases hx
  | spawn i sniFails =>
      obtain ⟨r, hi, _⟩ := step_spawn.mp hstep
      obtain ⟨_, hx⟩ := hwaiting i _ hi
      cases hx
  | resume i r =>
      obtain ⟨_, hi, _⟩ := step_resume.mp hstep
      obtain ⟨_, hx⟩ := hwaiting i _ hi
      cases hx
  | yield i =>
      obtain ⟨_, _, _, hi, _⟩ := step_yield.mp hstep
      obtain ⟨_, hx⟩ := hwaiting i _ rfl
      rw [hx] at hi
      cases hi
  | complete r ec =>
      obtain ⟨op, _, rfl⟩ := step_complete.mp hstep
      intro i
      obtain ⟨r', hi, hr'⟩ := hall i
      refine ⟨r', hi, ?_⟩
      by_cases heq : r' = r
      · subst heq
        simp [Pool.setFetch]
      · simpa [Pool.setFetch, heq] using hr'
  | getReturns i =>
      obtain ⟨r, hi, hset, _⟩ := step_getReturns.mp hstep
      obtain ⟨r', hi', hr'⟩ := hall i
      rw [hi] at hi'
      cases hi'
      exact absurd hset hr'

/-! ## The way in -/

/-- The first `m` threads each wait for a fetch of their own that waits for a
thread; nothing else is going on. -/
structure Filled (m : Nat) (p : Pool w) : Prop where
  waiting : ∀ i : Fin w, i.val < m →
    p.workers i = .waiting i.val ∧ ∃ point, p.fetches i.val = some (.queued point)
  idle : ∀ i : Fin w, m ≤ i.val → p.workers i = .idle
  queue : p.queue = ∅
  arrived : p.arrived = Finset.range m
  answered : p.answered = ∅

/-- The runs in which at most `k` requests are ever in flight. -/
abbrev limited (startsAtOnce : Pool w → Bool) (k : Nat) : Pool w → Action w → Option (Pool w) :=
  Runs.within (fun p => p.inFlight.card ≤ k) (step startsAtOnce)

variable (startsAtOnce)

/-- A thread with a request comes to wait for a fetch that waits for a thread,
wherever the first step of the fetch is run. -/
theorem run_spawn {k r : Nat} {p : Pool w} {i : Fin w} (hi : p.workers i = .handling r)
    (hflight : p.inFlight.card ≤ k) :
    ∃ as point, Runs.run (limited startsAtOnce k) p as =
      some ((p.setFetch r (.queued point)).setWorker i (.waiting r)) := by
  by_cases hnow : (startsAtOnce p && p.strandFree) = true
  · -- the first step runs here, and the resolver answers while the thread waits
    set p₁ : Pool w := (p.setFetch r (.running (.entry false))).setWorker i (.starting r) with hp₁
    set p₂ : Pool w := (p₁.setFetch r (.suspended .resolve)).setWorker i (.waiting r) with hp₂
    have hspawn : step startsAtOnce p (.spawn i false) = some p₁ :=
      step_spawn.mpr ⟨r, hi, by rw [if_pos hnow]⟩
    have hyield : step startsAtOnce p₁ (.yield i) = some p₂ :=
      step_yield.mpr ⟨r, .waiting r, .entry false, by simp [hp₁, Pool.setWorker, Worker.inStrand],
        by simp [hp₁, Pool.setWorker, Pool.setFetch], rfl⟩
    have hcomplete : step startsAtOnce p₂ (.complete r false) =
        some (p₂.setFetch r (.queued (.after .resolve false))) :=
      step_complete.mpr ⟨.resolve, by simp [hp₂, Pool.setWorker, Pool.setFetch], rfl⟩
    have hend : p₂.setFetch r (.queued (.after .resolve false)) =
        (p.setFetch r (.queued (.after .resolve false))).setWorker i (.waiting r) := by
      simp [hp₂, hp₁, Pool.setWorker, Pool.setFetch]
    refine ⟨[.spawn i false, .yield i, .complete r false], .after .resolve false, ?_⟩
    rw [← hend]
    have hlast : Runs.run (limited startsAtOnce k) p₂ [.complete r false] = some _ :=
      Runs.run_within_cons hcomplete hflight rfl
    exact Runs.run_within_cons hspawn hflight (Runs.run_within_cons hyield hflight hlast)
  · have hspawn : step startsAtOnce p (.spawn i false) =
        some ((p.setFetch r (.queued (.entry false))).setWorker i (.waiting r)) :=
      step_spawn.mpr ⟨r, hi, by rw [if_neg hnow]⟩
    exact ⟨[.spawn i false], .entry false, Runs.run_within_cons hspawn hflight rfl⟩

/-- One request more, taken and blocked on by the next thread. -/
theorem Filled.succ {m k : Nat} {p : Pool w} (h : Filled m p) (hm : m < w) (hk : m < k) :
    ∃ as p', Runs.run (limited startsAtOnce k) p as = some p' ∧ Filled (m + 1) p' := by
  set i : Fin w := ⟨m, hm⟩ with hi
  set p₁ : Pool w := { p with queue := insert m p.queue, arrived := insert m p.arrived } with hp₁
  set p₂ : Pool w := { p₁ with queue := p₁.queue.erase m }.setWorker i (.handling m) with hp₂
  have hidle : p.workers i = .idle := h.idle i (Nat.le_refl m)
  have harrive : step startsAtOnce p (.arrive m) = some p₁ :=
    step_arrive.mpr ⟨by rw [h.arrived]; exact Finset.notMem_range_self, rfl⟩
  have htake : step startsAtOnce p₁ (.take i m) = some p₂ :=
    step_take.mpr ⟨hidle, Finset.mem_insert_self m p.queue, rfl⟩
  have harrived : p₁.arrived = Finset.range (m + 1) := by
    rw [hp₁, Finset.range_add_one, ← h.arrived]
  have hflight : p₁.inFlight.card ≤ k := by
    rw [Pool.inFlight, harrived, show p₁.answered = ∅ from h.answered, Finset.sdiff_empty,
      Finset.card_range]
    exact hk
  obtain ⟨as, point, hspawn⟩ := run_spawn startsAtOnce (p := p₂) (i := i) (r := m)
    (by simp [hp₂, Pool.setWorker]) hflight
  set p₃ : Pool w := (p₂.setFetch m (.queued point)).setWorker i (.waiting m) with hp₃
  refine ⟨.arrive m :: .take i m :: as, p₃, ?_, ?_⟩
  · exact Runs.run_within_cons harrive hflight (Runs.run_within_cons htake hflight hspawn)
  · constructor
    · intro j hj
      rcases Nat.lt_succ_iff_lt_or_eq.mp hj with hlt | heq
      · obtain ⟨hwait, point', hfetch⟩ := h.waiting j hlt
        have hne : j ≠ i := fun hji => by rw [hji] at hlt; exact Nat.lt_irrefl m hlt
        refine ⟨?_, point', ?_⟩
        · simpa [Pool.setWorker, Pool.setFetch, hp₃, hp₂, hp₁, hne] using hwait
        · simpa [Pool.setWorker, Pool.setFetch, hp₃, hp₂, hp₁, Nat.ne_of_lt hlt] using hfetch
      · obtain rfl : j = i := Fin.ext heq
        simp [Pool.setWorker, Pool.setFetch, hp₃, hi]
    · intro j hj
      have hne : j ≠ i := fun hji => by rw [hji] at hj; exact Nat.not_succ_le_self m hj
      simpa [Pool.setWorker, Pool.setFetch, hp₃, hp₂, hp₁, hne] using
        h.idle j (Nat.le_of_succ_le hj)
    · simp [Pool.setWorker, Pool.setFetch, hp₃, hp₂, hp₁, h.queue]
    · exact harrived
    · exact h.answered

/-- Any number of threads up to all of them can be made to wait so. -/
theorem filled_reachable {k : Nat} (hk : w ≤ k) : ∀ m ≤ w,
    ∃ as p, Runs.run (limited startsAtOnce k) (.start w) as = some p ∧ Filled m p := by
  intro m
  induction m with
  | zero =>
      intro _
      exact ⟨[], .start w, rfl, fun _ hi => absurd hi (Nat.not_lt_zero _), fun _ _ => rfl,
        rfl, rfl, rfl⟩
  | succ m ih =>
      intro hm
      obtain ⟨as, p, hrun, hfilled⟩ := ih (Nat.le_of_succ_le hm)
      obtain ⟨as', p', hrun', hfilled'⟩ := hfilled.succ startsAtOnce (k := k) hm
        (Nat.lt_of_lt_of_le hm hk)
      exact ⟨as ++ as', p', by rw [Runs.run_append_of_run hrun, hrun'], hfilled'⟩

variable {startsAtOnce}

theorem Filled.deadlocked {p : Pool w} (h : Filled w p) (hw : 0 < w) : p.Deadlocked := by
  refine ⟨?_, ⟨⟨0, hw⟩, 0, ?_⟩⟩
  · intro i
    obtain ⟨hwait, point, hfetch⟩ := h.waiting i i.isLt
    refine ⟨i.val, hwait, ?_⟩
    rw [hfetch]
    simp
  · obtain ⟨hwait, point, hfetch⟩ := h.waiting ⟨0, hw⟩ hw
    exact ⟨point, hwait, hfetch⟩

/-- **With `n` configured threads, the runs with at most `k` requests in flight
never deadlock exactly when `k` is below the number of background threads.** -/
theorem no_deadlock_iff (n k : Nat) (hn : 2 ≤ n)
    (startsAtOnce : Pool (backgroundThreads n) → Bool) :
    (∀ as p, Runs.run (limited startsAtOnce k) (.start (backgroundThreads n)) as = some p →
        ¬ p.Deadlocked) ↔ k < n - 1 := by
  constructor
  · intro h
    by_contra hk
    obtain ⟨as, p, hrun, hfilled⟩ := filled_reachable startsAtOnce (Nat.not_lt.mp hk) _
      (Nat.le_refl (n - 1))
    exact h as p hrun (hfilled.deadlocked (Nat.sub_pos_of_lt hn))
  · intro hk as p hrun hdead
    have hstart : (Pool.start (backgroundThreads n)).inFlight.card ≤ k := Nat.zero_le k
    obtain ⟨hflight, hrun'⟩ :=
      Runs.run_within (C := fun p : Pool (backgroundThreads n) => p.inFlight.card ≤ k) hstart hrun
    have howned : Owned p := Runs.run_inv (P := Owned) (G := fun _ => True)
      (fun h _ hstep => h.step hstep) (owned_start _) (fun _ _ => trivial) hrun'
    have hle : n - 1 ≤ p.inFlight.card := howned.card_le hdead.1
    exact absurd (Nat.le_trans hle hflight) (Nat.not_le.mpr hk)

/-- Five configured threads and three requests in flight. -/
theorem no_deadlock_five :
    (∀ as p, Runs.run (limited (fun p => p.queue = ∅) 3) (.start (backgroundThreads 5)) as =
        some p → ¬ p.Deadlocked) ↔ 3 < 5 - 1 :=
  no_deadlock_iff 5 3 (by decide) (fun p => p.queue = ∅)

/-- With two configured threads one request is enough, whether its fetch is
queued or begins on the calling thread. -/
theorem one_request_deadlocks :
    (∃ p : Pool (backgroundThreads 2),
      Runs.run (step fun _ => false) (.start (backgroundThreads 2))
        [.arrive 7, .take ⟨0, by decide⟩ 7, .spawn ⟨0, by decide⟩ false] = some p ∧
      p.Deadlocked) ∧
    ∃ p : Pool (backgroundThreads 2),
      Runs.run (step fun _ => true) (.start (backgroundThreads 2))
        [.arrive 7, .take ⟨0, by decide⟩ 7, .spawn ⟨0, by decide⟩ false,
          .yield ⟨0, by decide⟩, .complete 7 false] = some p ∧
      p.Deadlocked := by
  have honly : ∀ i : Fin (backgroundThreads 2), i = ⟨0, by decide⟩ :=
    fun i => Fin.ext (Nat.lt_one_iff.mp i.isLt)
  refine ⟨⟨_, rfl, ?_, ⟨0, by decide⟩, 7, .entry false, rfl, rfl⟩,
    ⟨_, rfl, ?_, ⟨0, by decide⟩, 7, .after .resolve false, rfl, rfl⟩⟩
  · intro i
    obtain rfl := honly i
    exact ⟨7, rfl, by decide⟩
  · intro i
    obtain rfl := honly i
    exact ⟨7, rfl, by decide⟩

end SravzBackend.BackgroundWorkers
