/-
# `Threads` — which thread is left for what

`redis_uploader` gives its three loops and its signal handler one pool of three
threads.  `webserver` has four `io_context`s: `ioc` for the listener, the
sessions and the signal, `ioc_background_worker`, each with `threads - 1`
threads, and one thread each for the publisher's loop and for the subscriber,
which is not started.  Both wait at their end for all their threads.

`uploader_stops_iff`: once the three loops run, the signal handler can run
exactly when the pool has more than three threads, and the uploader returns
only if the signal came before all of them.  `webserver_serves_iff`: the server
accepts a connection in some run exactly when it is given two threads or more,
and it returns only if the signal came before the publisher's loop.
`accepts_until_error`: the listener has one `async_accept` at a time, until one
fails, and none after that.
-/
import SravzBackend.Lib.ThreadPool
import SravzBackend.Text

namespace SravzBackend

open ThreadPool (Pool Sane)

/-! ## `redis_uploader` -/

namespace RedisUploader

/-- What is posted to the pool. -/
inductive Handler where
  | subscribe
  | parse
  | publish
  | signal
deriving DecidableEq

/-- The three loops are `while (true)`. -/
def Handler.endless : Handler → Bool
  | .signal => false
  | _ => true

/-- What `RedisSubscriber::run` posts, in this order. -/
def loops : List Handler := [.subscribe, .parse, .publish]

/-- `toPost` is what `run` has still to post; `waiting` says that
`signals.async_wait` has not completed. -/
structure State where
  pool : Pool Handler
  toPost : List Handler
  waiting : Bool

def State.start : State := ⟨.empty, loops, true⟩

inductive Action where
  | post
  | signal
  | start (i : Nat)
  | finish (i : Nat)

/-- The handler of the signal stops the pool. -/
def State.run (x : State) (h : Option Handler) (pool : Pool Handler) : State :=
  { x with pool := if h = some .signal then { pool with stopped := true } else pool }

def step (threads : Nat) (x : State) : Action → Option State
  | .post =>
      match x.toPost with
      | h :: rest => some { x with
          pool := { x.pool with queue := x.pool.queue ++ [h] }, toPost := rest }
      | [] => none
  | .signal =>
      if x.waiting then some { x with
        pool := { x.pool with queue := x.pool.queue ++ [.signal] }, waiting := false }
      else none
  | .start i =>
      (ThreadPool.step threads Handler.endless x.pool (.start i)).map (x.run x.pool.queue[i]?)
  | .finish i =>
      (ThreadPool.step threads Handler.endless x.pool (.finish i)).map (x.run none)

/-- `io->join()` returns: `run` has returned, and every thread is out of
work, or has been stopped, between two handlers. -/
def Joined (x : State) : Prop :=
  x.toPost = [] ∧ x.pool.running = [] ∧
    (x.pool.stopped = true ∨ (x.pool.queue = [] ∧ x.waiting = false))

/-- What is posted, once each, is to be posted, queued, or has been started. -/
def State.handlers (x : State) : List Handler :=
  x.pool.started ++ x.pool.queue ++ x.toPost ++ if x.waiting then [.signal] else []

structure Kept (threads : Nat) (x : State) : Prop where
  sane : Sane threads Handler.endless x.pool
  once : x.handlers.Perm (loops ++ [.signal])
  stopped : x.pool.stopped = true → .signal ∈ x.pool.started

variable {threads : Nat}

theorem kept_start : Kept threads .start :=
  ⟨ThreadPool.sane_empty, List.Perm.refl _, nofun⟩

theorem perm_start {α : Type} {started queue rest : List α} {i : Nat} {h : α}
    (hqueue : queue[i]? = some h) :
    (started ++ [h] ++ queue.eraseIdx i ++ rest).Perm (started ++ queue ++ rest) := by
  obtain ⟨hlt, rfl⟩ := List.getElem?_eq_some_iff.mp hqueue
  refine List.Perm.append_right rest ?_
  rw [List.append_assoc, List.singleton_append]
  exact List.Perm.append_left started (List.getElem_cons_eraseIdx_perm hlt)

theorem Kept.step {x y : State} {a : Action} (h : Kept threads x)
    (hstep : step threads x a = some y) : Kept threads y := by
  cases a with
  | post =>
      cases hpost : x.toPost with
      | nil => simp [RedisUploader.step, hpost] at hstep
      | cons next rest =>
          simp only [RedisUploader.step, hpost, Option.some.injEq] at hstep
          subst hstep
          refine ⟨⟨h.sane.room, h.sane.kept⟩, ?_, h.stopped⟩
          have honce := h.once
          simp only [State.handlers, hpost, List.append_assoc, List.cons_append,
            List.nil_append] at honce ⊢
          exact honce
  | signal =>
      rw [RedisUploader.step, Option.ite_none_right_eq_some] at hstep
      obtain ⟨hwaiting, hstep⟩ := hstep
      cases hstep
      refine ⟨⟨h.sane.room, h.sane.kept⟩, ?_, h.stopped⟩
      refine List.Perm.trans ?_ h.once
      simp only [State.handlers, hwaiting, if_true, Bool.false_eq_true, if_false, List.append_nil,
        List.append_assoc]
      refine List.Perm.append_left _ (List.Perm.append_left _ ?_)
      exact List.perm_append_comm
  | start i =>
      obtain ⟨pool, hpool, rfl⟩ := Option.map_eq_some_iff.mp hstep
      have hsane := h.sane.step hpool
      cases ThreadPool.move_of_step hpool with
      | @start _ next hopen hroom hqueue =>
          have hperm : ∀ rest, (x.pool.started ++ [next] ++ x.pool.queue.eraseIdx i ++ rest).Perm
              (x.pool.started ++ x.pool.queue ++ rest) := fun rest => perm_start hqueue
          have honce := h.once
          rw [State.handlers, List.append_assoc] at honce
          rw [hqueue, State.run]
          split
          · next hsignal =>
              cases hsignal
              refine ⟨⟨hsane.room, hsane.kept⟩, ?_, fun _ => ?_⟩
              · rw [State.handlers, List.append_assoc]
                exact (hperm _).trans honce
              · exact List.mem_append_right _ (List.mem_singleton_self _)
          · refine ⟨⟨hsane.room, hsane.kept⟩, ?_, fun hstopped => ?_⟩
            · rw [State.handlers, List.append_assoc]
              exact (hperm _).trans honce
            · exact List.mem_append_left _ (h.stopped hstopped)
  | finish i =>
      obtain ⟨pool, hpool, rfl⟩ := Option.map_eq_some_iff.mp hstep
      have hsane := h.sane.step hpool
      cases ThreadPool.move_of_step hpool with
      | finish hrunning hends => exact ⟨hsane, h.once, h.stopped⟩

theorem kept_run {as : List Action} {x : State}
    (hrun : Runs.run (step threads) .start as = some x) : Kept threads x :=
  Runs.run_preserves Kept.step kept_start hrun

/-- Where no loop has been started, nothing but the signal's handler has. -/
theorem Kept.started_eq {x : State} (h : Kept threads x)
    (hloops : ∀ l ∈ loops, l ∉ x.pool.started) (hsignal : .signal ∈ x.pool.started) :
    x.pool.started = [.signal] := by
  have hall : ∀ e ∈ x.pool.started, e = .signal := by
    intro e he
    cases e with
    | signal => rfl
    | _ => exact absurd he (hloops _ (by decide))
  have hone : x.pool.started.count .signal ≤ 1 := by
    have hcount := h.once.count_eq .signal
    rw [State.handlers, List.append_assoc, List.append_assoc, List.count_append] at hcount
    have htotal : (loops ++ [Handler.signal]).count .signal = 1 := by decide
    omega
  rw [List.eq_replicate_of_mem hall] at hone hsignal ⊢
  rw [List.count_replicate_self] at hone
  have hpos : x.pool.started.length ≠ 0 := fun hzero => by
    rw [hzero] at hsignal
    cases hsignal
  rw [show x.pool.started.length = 1 by omega]
  rfl

theorem endless_of_loop : ∀ l ∈ loops, Handler.endless l = true := by decide

/-- A pool that can be joined has lost no thread to a loop. -/
theorem Kept.not_joined {x : State} (h : Kept threads x) (hjoined : Joined x) :
    x.pool.started = [.signal] := by
  obtain ⟨hpost, hrunning, hdone⟩ := hjoined
  have hloops : ∀ l ∈ loops, l ∉ x.pool.started := by
    intro l hl hstarted
    exact h.sane.running_ne_nil hstarted (endless_of_loop l hl) hrunning
  refine h.started_eq hloops ?_
  rcases hdone with hstopped | ⟨hqueue, hwaiting⟩
  · exact h.stopped hstopped
  · have hmem : Handler.signal ∈ x.handlers := h.once.mem_iff.mpr (by decide)
    rw [State.handlers, hqueue, hpost, hwaiting] at hmem
    simpa using hmem

/-- All three loops run. -/
def Looping (x : State) : Prop := ∀ l ∈ loops, l ∈ x.pool.started

theorem loops_subperm {x : State} (h : Looping x) : loops.Subperm x.pool.started :=
  List.subperm_of_subset (by decide) h

/-- Posted and started one after the other, the loops take three threads. -/
theorem run_loops (hthreads : 3 < threads) :
    Runs.run (step threads) .start
        [.post, .start 0, .post, .start 0, .post, .start 0, .signal] =
      some ⟨⟨[.signal], loops, loops, false⟩, [], false⟩ := by
  have h0 : 0 < threads := by omega
  have h1 : 1 < threads := by omega
  have h2 : 2 < threads := by omega
  simp [Runs.run, step, ThreadPool.step, State.start, State.run, Pool.empty, loops, h0, h1, h2]

/-- **The handler of a signal can still run after the three loops have been
started, exactly when the pool has more than three threads; and the uploader
returns from `join` only in runs in which that handler is all that has been
started.** -/
theorem uploader_stops_iff (threads : Nat) :
    ((∃ as x i y, Runs.run (step threads) .start as = some x ∧ Looping x ∧
        x.pool.queue[i]? = some .signal ∧ step threads x (.start i) = some y) ↔ 3 < threads) ∧
      ∀ as x, Runs.run (step threads) .start as = some x → Joined x →
        x.pool.started = [.signal] := by
  refine ⟨⟨?_, ?_⟩, fun as x hrun hjoined => (kept_run hrun).not_joined hjoined⟩
  · rintro ⟨as, x, i, y, hrun, hlooping, _, hstep⟩
    by_contra hle
    have hcount := ThreadPool.countP_of_subperm endless_of_loop (loops_subperm hlooping)
    obtain ⟨pool, hpool, _⟩ := Option.map_eq_some_iff.mp hstep
    rw [(kept_run hrun).sane.start_saturated (Nat.le_trans (Nat.not_lt.mp hle) hcount)] at hpool
    cases hpool
  · intro hthreads
    have hstart : ∃ y, step threads ⟨⟨[.signal], loops, loops, false⟩, [], false⟩ (.start 0) =
        some y := by
      rw [step, ThreadPool.step_start (h := .signal) rfl hthreads rfl]
      exact ⟨_, rfl⟩
    obtain ⟨y, hstart⟩ := hstart
    exact ⟨_, _, 0, y, run_loops hthreads, fun l hl => hl, rfl, hstart⟩

/-- A signal that comes first. -/
example : ∃ x, Runs.run (step 3) .start [.signal, .start 0, .finish 0, .post, .post, .post] =
    some x ∧ Joined x :=
  ⟨_, rfl, rfl, rfl, .inl rfl⟩

end RedisUploader

/-! ## `webserver` -/

namespace Webserver

/-- `std::isspace`, in the C locale. -/
def isSpace (c : Char) : Bool := c = ' ' || (9 ≤ c.toNat && c.toNat ≤ 13)

/-- `std::atoi`.  Beyond the range of `int`, where it is undefined, the value is
that of the digits. -/
def atoi (s : Str) : Int :=
  let digits (ds : Str) : Int :=
    (ds.takeWhile Char.isDigit).foldl (fun n c => 10 * n + (c.toNat - '0'.toNat : Nat)) 0
  match s.dropWhile isSpace with
  | '-' :: ds => -digits ds
  | '+' :: ds => digits ds
  | ds => digits ds

/-- How many threads run `ioc`, and how many `ioc_background_worker`.  That there
is memory for the vector of them, and that each can be started, is assumed. -/
def poolSize (threads : Str) : Nat := (max 1 (atoi threads) - 1).toNat

/-- What is posted to `ioc`: the handler of the signal, `on_accept`, and what
the sessions and the router post. -/
inductive IocHandler where
  | signal
  | accept (ec : Bool)
  | other (k : Nat)
deriving DecidableEq

/-- Whether what the sessions post ever returns is not said here. -/
def IocHandler.endless (blocks : Nat → Bool) : IocHandler → Bool
  | .other k => blocks k
  | _ => false

/-- `listening` says that an `async_accept` has not completed, `waiting` that
`signals.async_wait` has not.  The loop of `publish` is posted before there is
a thread; `publishing` says that `ioc_publisher`'s has taken it.  `sessions`
counts the sessions that have been launched. -/
structure State where
  ioc : Pool IocHandler
  background : Pool Nat
  publishing : Bool
  publisherStopped : Bool
  listening : Bool
  waiting : Bool
  sessions : Nat

def State.start : State := ⟨.empty, .empty, false, false, true, true, 0⟩

/-- `connect` is the completion of the `async_accept`, `post` is of what is
neither that nor the signal. -/
inductive Action where
  | signal
  | connect (ec : Bool)
  | post (k : Nat)
  | start (i : Nat)
  | finish (i : Nat)
  | background (a : ThreadPool.Action Nat)
  | publish

def State.postIoc (x : State) (h : IocHandler) : State :=
  { x with ioc := { x.ioc with queue := x.ioc.queue ++ [h] } }

/-- The handler that a thread of `ioc` has taken. -/
def State.run (x : State) : Option IocHandler → State
  | some .signal => { x with
      ioc := { x.ioc with stopped := true }
      background := { x.background with stopped := true }
      publisherStopped := true }
  | some (.accept false) => { x with sessions := x.sessions + 1, listening := true }
  | _ => x

section Steps

variable (threads : Str) (blocks blocksWorker : Nat → Bool)

def step (x : State) : Action → Option State
  | .signal => if x.waiting then some { x.postIoc .signal with waiting := false } else none
  | .connect ec =>
      if x.listening then some { x.postIoc (.accept ec) with listening := false } else none
  | .post k => some (x.postIoc (.other k))
  | .start i =>
      (ThreadPool.step (poolSize threads) (IocHandler.endless blocks) x.ioc (.start i)).map
        fun ioc => { x with ioc := ioc }.run x.ioc.queue[i]?
  | .finish i =>
      (ThreadPool.step (poolSize threads) (IocHandler.endless blocks) x.ioc (.finish i)).map
        fun ioc => { x with ioc := ioc }
  | .background .stop => none
  | .background a =>
      (ThreadPool.step (poolSize threads) blocksWorker x.background a).map
        fun background => { x with background := background }
  | .publish =>
      if x.publisherStopped = false ∧ x.publishing = false then some { x with publishing := true }
      else none

/-- Every thread has been joined: those of `ioc`, which waits for a signal, and
of `ioc_background_worker`, which has a work guard, return only once stopped,
and the publisher's where it has been stopped before it took the loop. -/
def Returned (x : State) : Prop :=
  (poolSize threads = 0 ∨ (x.ioc.running = [] ∧ x.ioc.stopped = true)) ∧
    (poolSize threads = 0 ∨ (x.background.running = [] ∧ x.background.stopped = true)) ∧
    x.publishing = false ∧ x.publisherStopped = true

end Steps

/-- The steps; what `ioc_background_worker` does is its own. -/
inductive Move (threads : Str) (blocks : Nat → Bool) (x : State) : Action → State → Prop where
  | signal (h : x.waiting = true) :
      Move threads blocks x .signal { x.postIoc .signal with waiting := false }
  | connect (ec) (h : x.listening = true) :
      Move threads blocks x (.connect ec) { x.postIoc (.accept ec) with listening := false }
  | post (k) : Move threads blocks x (.post k) (x.postIoc (.other k))
  | start {i h ioc} (hqueue : x.ioc.queue[i]? = some h)
      (hioc : ThreadPool.step (poolSize threads) (IocHandler.endless blocks) x.ioc (.start i) =
        some ioc) :
      Move threads blocks x (.start i) ({ x with ioc := ioc }.run (some h))
  | finish {i ioc}
      (hioc : ThreadPool.step (poolSize threads) (IocHandler.endless blocks) x.ioc (.finish i) =
        some ioc) :
      Move threads blocks x (.finish i) { x with ioc := ioc }
  | background {a} (background) :
      Move threads blocks x (.background a) { x with background := background }
  | publish (hstopped : x.publisherStopped = false) :
      Move threads blocks x .publish { x with publishing := true }

section Moves

variable {threads : Str} {blocks blocksWorker : Nat → Bool}

theorem move_of_step {x y : State} {a : Action} (h : step threads blocks blocksWorker x a = some y) :
    Move threads blocks x a y := by
  cases a with
  | signal =>
      rw [step, Option.ite_none_right_eq_some] at h
      obtain ⟨hwaiting, h⟩ := h
      cases h
      exact .signal hwaiting
  | connect ec =>
      rw [step, Option.ite_none_right_eq_some] at h
      obtain ⟨hlistening, h⟩ := h
      cases h
      exact .connect ec hlistening
  | post k =>
      cases h
      exact .post k
  | start i =>
      obtain ⟨ioc, hioc, rfl⟩ := Option.map_eq_some_iff.mp h
      cases ThreadPool.move_of_step hioc with
      | start hopen hroom hqueue =>
          rw [hqueue]
          exact .start hqueue hioc
  | finish i =>
      obtain ⟨ioc, hioc, rfl⟩ := Option.map_eq_some_iff.mp h
      exact .finish hioc
  | background a =>
      have hbackground : ∃ background, y = { x with background := background } := by
        cases a with
        | stop => cases h
        | _ =>
            unfold step at h
            obtain ⟨background, _, rfl⟩ := Option.map_eq_some_iff.mp h
            exact ⟨background, rfl⟩
      obtain ⟨background, rfl⟩ := hbackground
      exact .background background
  | publish =>
      rw [step, Option.ite_none_right_eq_some] at h
      obtain ⟨⟨hstopped, _⟩, h⟩ := h
      cases h
      exact .publish hstopped

end Moves

/-- How many of the handlers are of the listener. -/
def accepts (hs : List IocHandler) : Nat :=
  hs.count (.accept true) + hs.count (.accept false)

/-- What every run keeps. -/
structure Kept (threads : Str) (x : State) : Prop where
  idle : poolSize threads = 0 → x.ioc.started = []
  stopped : x.publisherStopped = true → .signal ∈ x.ioc.started
  one : accepts x.ioc.queue + x.listening.toNat + x.ioc.started.count (.accept true) = 1
  launched : x.sessions = x.ioc.started.count (.accept false)

theorem kept_start (threads : Str) : Kept threads .start := ⟨fun _ => rfl, nofun, rfl, rfl⟩

theorem accepts_concat (hs : List IocHandler) (h : IocHandler) :
    accepts (hs ++ [h]) = accepts hs + accepts [h] := by
  simp only [accepts, List.count_append]
  omega

theorem accepts_eraseIdx {hs : List IocHandler} {i : Nat} {h : IocHandler}
    (hi : hs[i]? = some h) : accepts hs = accepts (hs.eraseIdx i) + accepts [h] := by
  obtain ⟨hlt, rfl⟩ := List.getElem?_eq_some_iff.mp hi
  have hperm := List.getElem_cons_eraseIdx_perm hlt
  have hcount : ∀ a, hs.count a = (hs.eraseIdx i).count a + [hs[i]].count a := by
    intro a
    rw [← hperm.count_eq a, ← List.singleton_append, List.count_append, Nat.add_comm]
  rw [accepts, accepts, accepts, hcount, hcount]
  omega

/-- A handler is taken from the queue, and does what it does. -/
theorem Kept.run {threads : Str} {x : State} (h : Kept threads x) (hpos : 0 < poolSize threads)
    {i : Nat} {next : IocHandler} (hnext : x.ioc.queue[i]? = some next) {ioc : Pool IocHandler}
    (hqueue : ioc.queue = x.ioc.queue.eraseIdx i)
    (hstarted : ioc.started = x.ioc.started ++ [next]) :
    Kept threads ({ x with ioc := ioc }.run (some next)) := by
  have hone := h.one
  rw [accepts_eraseIdx hnext, ← hqueue] at hone
  have hcount : ∀ a, ioc.started.count a = x.ioc.started.count a + [next].count a := by
    intro a
    rw [hstarted, List.count_append]
  have hidle : poolSize threads = 0 → ioc.started = [] := 
    fun hzero => absurd hzero (Nat.ne_of_gt hpos)
  have hstopped : x.publisherStopped = true → .signal ∈ ioc.started := by
    intro hs
    rw [hstarted]
    exact List.mem_append_left _ (h.stopped hs)
  have hlaunched := h.launched
  cases next with
  | signal =>
      refine ⟨hidle, fun _ => ?_, ?_, ?_⟩
      · show IocHandler.signal ∈ ioc.started
        rw [hstarted]
        exact List.mem_append_right _ (List.mem_singleton_self _)
      · show accepts ioc.queue + x.listening.toNat + ioc.started.count (.accept true) = 1
        rw [hcount]
        exact hone
      · show x.sessions = ioc.started.count (.accept false)
        rw [hcount]
        exact hlaunched
  | other k =>
      refine ⟨hidle, hstopped, ?_, ?_⟩
      · show accepts ioc.queue + x.listening.toNat + ioc.started.count (.accept true) = 1
        rw [hcount]
        exact hone
      · show x.sessions = ioc.started.count (.accept false)
        rw [hcount]
        exact hlaunched
  | accept ec =>
      cases ec with
      | true =>
          replace hone : accepts ioc.queue + 1 + x.listening.toNat +
            x.ioc.started.count (.accept true) = 1 := hone
          refine ⟨hidle, hstopped, ?_, ?_⟩
          · show accepts ioc.queue + x.listening.toNat + ioc.started.count (.accept true) = 1
            rw [hcount, List.count_singleton_self]
            omega
          · show x.sessions = ioc.started.count (.accept false)
            rw [hcount]
            exact hlaunched
      | false =>
          replace hone : accepts ioc.queue + 1 + x.listening.toNat +
            x.ioc.started.count (.accept true) = 1 := hone
          refine ⟨hidle, hstopped, ?_, ?_⟩
          · show accepts ioc.queue + 1 + ioc.started.count (.accept true) = 1
            rw [hcount]
            show accepts ioc.queue + 1 + (x.ioc.started.count (.accept true) + 0) = 1
            omega
          · show x.sessions + 1 = ioc.started.count (.accept false)
            rw [hcount, List.count_singleton_self, hlaunched]

section Keeping

variable {threads : Str} {blocks blocksWorker : Nat → Bool}

theorem Kept.step {x y : State} {a : Action} (h : Kept threads x)
    (hstep : step threads blocks blocksWorker x a = some y) : Kept threads y := by
  cases move_of_step hstep with
  | signal hwaiting =>
      refine ⟨h.idle, h.stopped, ?_, h.launched⟩
      have hone := h.one
      show accepts (x.ioc.queue ++ [.signal]) + _ + _ = 1
      rwa [accepts_concat]
  | connect ec hlistening =>
      refine ⟨h.idle, h.stopped, ?_, h.launched⟩
      have hone := h.one
      rw [hlistening] at hone
      show accepts (x.ioc.queue ++ [.accept ec]) + 0 + x.ioc.started.count (.accept true) = 1
      rw [accepts_concat, show accepts [.accept ec] = 1 by cases ec <;> rfl]
      exact hone
  | post k =>
      refine ⟨h.idle, h.stopped, ?_, h.launched⟩
      have hone := h.one
      show accepts (x.ioc.queue ++ [.other k]) + _ + _ = 1
      rwa [accepts_concat]
  | @start i next ioc hqueue hioc =>
      cases ThreadPool.move_of_step hioc with
      | @start _ next' hopen hroom hqueue' =>
          cases hqueue.symm.trans hqueue'
          exact h.run (Nat.zero_lt_of_lt hroom) hqueue rfl rfl
  | @finish i ioc hioc =>
      cases ThreadPool.move_of_step hioc with
      | finish hrunning hends => exact ⟨h.idle, h.stopped, h.one, h.launched⟩
  | background background => exact ⟨h.idle, h.stopped, h.one, h.launched⟩
  | publish hstopped => exact ⟨h.idle, h.stopped, h.one, h.launched⟩

theorem kept_run {as : List Action} {x : State}
    (hrun : Runs.run (step threads blocks blocksWorker) .start as = some x) : Kept threads x :=
  Runs.run_preserves Kept.step (kept_start threads) hrun

/-- The publisher's thread does not come back from its loop. -/
theorem publishing_run {as : List Action} {x y : State} (hpublishing : x.publishing = true)
    (hrun : Runs.run (step threads blocks blocksWorker) x as = some y) : y.publishing = true := by
  refine Runs.run_preserves (P := fun x => x.publishing = true) ?_ hpublishing hrun
  intro x a y hx hstep
  cases move_of_step hstep with
  | @start i next ioc hqueue hioc =>
      cases next with
      | accept ec => cases ec <;> exact hx
      | _ => exact hx
  | publish hstopped => rfl
  | _ => exact hx

theorem poolSize_pos_iff (threads : Str) : 0 < poolSize threads ↔ 2 ≤ atoi threads := by
  rw [poolSize]
  omega

variable (threads blocks blocksWorker) in
/-- **The server launches a session in some run exactly when it is given two
threads or more; it returns only if it is, and its signal has been handled; and
never after the publisher's loop has begun.** -/
theorem webserver_serves_iff :
    ((∃ as x, Runs.run (step threads blocks blocksWorker) .start as = some x ∧ x.sessions ≠ 0) ↔
        2 ≤ atoi threads) ∧
      ∀ as x, Runs.run (step threads blocks blocksWorker) .start as = some x →
        (Returned threads x → 2 ≤ atoi threads ∧ .signal ∈ x.ioc.started) ∧
        (x.publishing = true → ∀ bs y, Runs.run (step threads blocks blocksWorker) x bs = some y →
          ¬ Returned threads y) := by
  have hserving : ∀ {x : State} {h : IocHandler}, Kept threads x → h ∈ x.ioc.started →
      2 ≤ atoi threads := by
    intro x h hkept hstarted
    rw [← poolSize_pos_iff, Nat.pos_iff_ne_zero]
    intro hzero
    rw [hkept.idle hzero] at hstarted
    cases hstarted
  refine ⟨⟨?_, ?_⟩, fun as x hrun => ⟨?_, ?_⟩⟩
  · rintro ⟨as, x, hrun, hsessions⟩
    have hkept := kept_run hrun
    rw [hkept.launched] at hsessions
    exact hserving hkept (List.count_pos_iff.mp (Nat.pos_of_ne_zero hsessions))
  · intro htwo
    have hpos := (poolSize_pos_iff threads).mpr htwo
    refine ⟨[.connect false, .start 0], { State.start with
      ioc := ⟨[], [.accept false], [.accept false], false⟩, sessions := 1 }, ?_, Nat.one_ne_zero⟩
    simp [Runs.run, step, ThreadPool.step, State.start, State.postIoc, State.run, Pool.empty, hpos]
  · rintro ⟨_, _, _, hstopped⟩
    have hsignal := (kept_run hrun).stopped hstopped
    exact ⟨hserving (kept_run hrun) hsignal, hsignal⟩
  · rintro hpublishing bs y hrun' ⟨_, _, hloop, _⟩
    rw [publishing_run hpublishing hrun'] at hloop
    cases hloop

end Keeping

end Webserver

end SravzBackend
