/-
# `Web.Sessions` — sessions and the subscriber, interleaved

Any number of websocket sessions run their procedures, `on_accept`'s join,
`parse` for one message after another, and the destructor's `leave`, each
session one procedure at a time; the subscriber takes the events they push.
A step is one critical section of one session, or one iteration of the
subscriber's loop, so a run is an interleaving of the lock-protected sections.

`Move` says what a step can do, one constructor for each kind of section;
every invariant of this module and of those above it is a case analysis of it.
`run_parse` and `run_leave` tie the sections to the procedures: with nobody in
between, they do what `shared_state::parse` and `shared_state::leave` do.

`symbols_intact_iff`: in every run whose messages name only configured topics
no null symbol is met, and one more message meets none exactly when it names
only configured topics.
-/
import SravzBackend.Lib.Runs
import SravzBackend.Web.SharedState

namespace SravzBackend.Web

open SharedState (subscribeTopic unsubscribeTopic)

variable {ω : Type}

/-! ## `subscriber` -/

/-- The topics `sub` is subscribed to upstream, and the counter of the loop. -/
structure Subscriber where
  subscribed : Finset Str
  topicsSubscribedCount : Int

def Subscriber.start : Subscriber := ⟨∅, 0⟩

/-- The `switch` over a popped event. -/
def Subscriber.handle (sub : Subscriber) : SubscriberEvent → Subscriber
  | (.subscribe, topic) =>
      ⟨insert topic sub.subscribed, sub.topicsSubscribedCount + 1⟩
  | (.unsubscribe, topic) =>
      ⟨sub.subscribed.erase topic, sub.topicsSubscribedCount - 1⟩
  | (.other _, _) => sub

/-! ## The system -/

/-- Where a session is.  `subscribing` and `unsubscribing` are about to lock
`mutex_` for a topic, `joining` and `parting` to lock its symbol's mutex, and
`erasing` is `leave` after its loop; `leaving` says whose loop it is.  Before
it is constructed and after `leave` has returned, a session is `absent`. -/
inductive Pc where
  | absent
  | accepting
  | idle
  | subscribing (topic : Str) (rest : List Str)
  | joining (topic : Str) (rest : List Str)
  | unsubscribing (leaving : Bool) (topic : Str) (rest : List Str)
  | parting (leaving : Bool) (topic : Str) (rest : List Str)
  | erasing

/-- The head of the loop of `websocket_subscribe_to_symbols`. -/
def Pc.subscribe : List Str → Pc
  | [] => .idle
  | topic :: rest => .subscribing topic rest

/-- The head of the loop of `websocket_unsubscribe_to_symbols`, called by
`parse` or by `leave`. -/
def Pc.unsubscribe (leaving : Bool) : List Str → Pc
  | [] => if leaving then .erasing else .idle
  | topic :: rest => .unsubscribing leaving topic rest

/-- Where `parse` takes an idle session. -/
def Pc.ofRequest : Except JsonError Request → Pc
  | .ok (.subscribe topics) => .subscribe topics
  | .ok (.unsubscribe topics) => .unsubscribe false topics
  | .ok .unsupported => .idle
  | .error _ => .idle

/-- `fault` is set when a null symbol has been dereferenced; nothing moves
after that. -/
structure System (ω : Type) where
  shared : SharedState ω
  pc : ω → Pc
  subscriber : Subscriber
  fault : Bool

def System.start (cfg : Str) : System ω := ⟨.init cfg, fun _ => .absent, .start, false⟩

/-- A new session may have the address of one that is gone. -/
inductive Action (ω : Type) where
  | construct (s : ω)
  | accept (s : ω)
  | receive (s : ω) (msg : Str)
  | advance (s : ω)
  | destroy (s : ω)
  | pop

section Steps

variable [DecidableEq ω]

def System.goto (sys : System ω) (s : ω) (pc : Pc) : System ω :=
  { sys with pc := Function.update sys.pc s pc }

def System.setShared (sys : System ω) (st : SharedState ω) : System ω :=
  { sys with shared := st }

@[simp]
theorem System.goto_shared (sys : System ω) (s : ω) (pc : Pc) :
    (sys.goto s pc).shared = sys.shared := rfl

@[simp]
theorem System.goto_pc_self (sys : System ω) (s : ω) (pc : Pc) : (sys.goto s pc).pc s = pc := by
  simp [System.goto]

theorem System.goto_pc_of_ne (sys : System ω) {s s' : ω} (h : s' ≠ s) (pc : Pc) :
    (sys.goto s pc).pc s' = sys.pc s' := by
  simp [System.goto, h]

/-- A section that looks up a symbol, and where the session is after it. -/
def System.settle (sys : System ω) (s : ω) (pc : Pc) :
    Except (SharedState ω) (SharedState ω) → System ω
  | .ok st => (sys.setShared st).goto s pc
  | .error st => { sys with shared := st, fault := true }

/-- The next critical section of a session's procedure. -/
def System.advance (sys : System ω) (s : ω) : Option (System ω) :=
  match sys.pc s with
  | .subscribing topic rest =>
      some ((sys.setShared (sys.shared.insertTopic s topic)).goto s (.joining topic rest))
  | .joining topic rest =>
      some (sys.settle s (.subscribe rest) (sys.shared.joinSymbol s topic))
  | .unsubscribing leaving topic rest =>
      some ((sys.setShared (sys.shared.eraseTopic s topic)).goto s (.parting leaving topic rest))
  | .parting leaving topic rest =>
      some (sys.settle s (.unsubscribe leaving rest) (sys.shared.leaveSymbol s topic))
  | .erasing => some ((sys.setShared (sys.shared.eraseSession s)).goto s .absent)
  | .absent => none
  | .accepting => none
  | .idle => none

/-- One iteration of the subscriber's loop; on an empty queue it does nothing. -/
def System.pop (sys : System ω) : System ω :=
  match sys.shared.spscQueueSubscriber.pop with
  | some (ev, queue) =>
      { sys.setShared { sys.shared with spscQueueSubscriber := queue } with
        subscriber := sys.subscriber.handle ev }
  | none => sys

def step (parseJson : JsonParser) (sys : System ω) (a : Action ω) : Option (System ω) :=
  if sys.fault then none
  else
    match a with
    | .construct s =>
        match sys.pc s with
        | .absent =>
            some ((sys.setShared (sys.shared.setTopics s .empty)).goto s .accepting)
        | _ => none
    | .accept s =>
        match sys.pc s with
        | .accepting => some ((sys.setShared (sys.shared.join s)).goto s .idle)
        | _ => none
    | .receive s msg =>
        match sys.pc s with
        | .idle => some (sys.goto s (.ofRequest (request parseJson msg)))
        | _ => none
    | .advance s => sys.advance s
    | .destroy s =>
        match sys.pc s with
        | .accepting => some (sys.goto s (.unsubscribe true (sys.shared.topics s).toList))
        | .idle => some (sys.goto s (.unsubscribe true (sys.shared.topics s).toList))
        | _ => none
    | .pop => some sys.pop

end Steps

/-- The messages of the action name only configured topics. -/
def Action.Configured (parseJson : JsonParser) (cfg : Str) : Action ω → Prop
  | .receive _ msg => ∀ t ∈ namedTopics parseJson msg, t ∈ split cfg
  | _ => True

/-! ## What a step can do -/

section Moves

variable [DecidableEq ω]

/-- The topic whose symbol the next section looks up. -/
def Pc.pending : Pc → Option Str
  | .joining topic _ => some topic
  | .parting _ topic _ => some topic
  | _ => none

/-- The steps, one constructor for each kind of section. -/
inductive Move (parseJson : JsonParser) (sys : System ω) : Action ω → System ω → Prop where
  | construct {s} (h : sys.pc s = .absent) :
      Move parseJson sys (.construct s)
        ((sys.setShared (sys.shared.setTopics s .empty)).goto s .accepting)
  | accept {s} (h : sys.pc s = .accepting) :
      Move parseJson sys (.accept s) ((sys.setShared (sys.shared.join s)).goto s .idle)
  | receive {s} (msg) (h : sys.pc s = .idle) :
      Move parseJson sys (.receive s msg) (sys.goto s (.ofRequest (request parseJson msg)))
  | destroy {s} (h : sys.pc s = .accepting ∨ sys.pc s = .idle) :
      Move parseJson sys (.destroy s)
        (sys.goto s (.unsubscribe true (sys.shared.topics s).toList))
  | insertTopic {s topic rest} (h : sys.pc s = .subscribing topic rest) :
      Move parseJson sys (.advance s)
        ((sys.setShared (sys.shared.insertTopic s topic)).goto s (.joining topic rest))
  | joinSymbol {s topic rest sym} (h : sys.pc s = .joining topic rest)
      (hsym : sys.shared.symbols topic = some (some sym)) :
      Move parseJson sys (.advance s)
        ((sys.setShared (sys.shared.settleSymbol topic (sym.join s)
          (sys.shared.sessionsOf topic = ∅) .subscribe)).goto s (.subscribe rest))
  | eraseTopic {s leaving topic rest} (h : sys.pc s = .unsubscribing leaving topic rest) :
      Move parseJson sys (.advance s)
        ((sys.setShared (sys.shared.eraseTopic s topic)).goto s (.parting leaving topic rest))
  | leaveSymbol {s leaving topic rest sym} (h : sys.pc s = .parting leaving topic rest)
      (hsym : sys.shared.symbols topic = some (some sym)) :
      Move parseJson sys (.advance s)
        ((sys.setShared (sys.shared.settleSymbol topic (sym.leave s).1
          (sys.shared.sessionsOf topic = {s}) .unsubscribe)).goto s (.unsubscribe leaving rest))
  | nullSymbol {s topic} (h : (sys.pc s).pending = some topic)
      (hnull : ∀ sym, sys.shared.symbols topic ≠ some (some sym)) :
      Move parseJson sys (.advance s)
        { sys with shared := sys.shared.setSymbol topic none, fault := true }
  | eraseSession {s} (h : sys.pc s = .erasing) :
      Move parseJson sys (.advance s)
        ((sys.setShared (sys.shared.eraseSession s)).goto s .absent)
  | pop {ev queue} (h : sys.shared.spscQueueSubscriber.pop = some (ev, queue)) :
      Move parseJson sys .pop
        { sys.setShared { sys.shared with spscQueueSubscriber := queue } with
          subscriber := sys.subscriber.handle ev }
  | popNothing (h : sys.shared.spscQueueSubscriber.pop = none) :
      Move parseJson sys .pop sys

variable {parseJson : JsonParser}

theorem move_of_advance {sys sys' : System ω} {s : ω} (h : sys.advance s = some sys') :
    Move parseJson sys (.advance s) sys' := by
  cases hpc : sys.pc s with
  | absent => simp [System.advance, hpc] at h
  | accepting => simp [System.advance, hpc] at h
  | idle => simp [System.advance, hpc] at h
  | subscribing topic rest =>
      simp only [System.advance, hpc, Option.some.injEq] at h
      subst h
      exact .insertTopic hpc
  | joining topic rest =>
      simp only [System.advance, hpc, Option.some.injEq] at h
      subst h
      by_cases hsym : ∃ sym, sys.shared.symbols topic = some (some sym)
      · obtain ⟨sym, hsym⟩ := hsym
        rw [SharedState.joinSymbol_eq _ s topic hsym]
        exact .joinSymbol hpc hsym
      · rw [SharedState.joinSymbol_null _ s topic (not_exists.mp hsym)]
        exact .nullSymbol (by rw [hpc]; rfl) (not_exists.mp hsym)
  | unsubscribing leaving topic rest =>
      simp only [System.advance, hpc, Option.some.injEq] at h
      subst h
      exact .eraseTopic hpc
  | parting leaving topic rest =>
      simp only [System.advance, hpc, Option.some.injEq] at h
      subst h
      by_cases hsym : ∃ sym, sys.shared.symbols topic = some (some sym)
      · obtain ⟨sym, hsym⟩ := hsym
        rw [SharedState.leaveSymbol_eq _ s topic hsym]
        exact .leaveSymbol hpc hsym
      · rw [SharedState.leaveSymbol_null _ s topic (not_exists.mp hsym)]
        exact .nullSymbol (by rw [hpc]; rfl) (not_exists.mp hsym)
  | erasing =>
      simp only [System.advance, hpc, Option.some.injEq] at h
      subst h
      exact .eraseSession hpc

/-- Every step is one of the moves, from a state without a fault. -/
theorem move_of_step {sys sys' : System ω} {a : Action ω}
    (h : step parseJson sys a = some sys') :
    sys.fault = false ∧ Move parseJson sys a sys' := by
  cases hfault : sys.fault with
  | true => simp [step, hfault] at h
  | false =>
      refine ⟨rfl, ?_⟩
      simp only [step, hfault, Bool.false_eq_true, if_false] at h
      cases a with
      | construct s =>
          cases hpc : sys.pc s with
          | absent =>
              simp only [hpc, Option.some.injEq] at h
              subst h
              exact .construct hpc
          | _ => simp [hpc] at h
      | accept s =>
          cases hpc : sys.pc s with
          | accepting =>
              simp only [hpc, Option.some.injEq] at h
              subst h
              exact .accept hpc
          | _ => simp [hpc] at h
      | receive s msg =>
          cases hpc : sys.pc s with
          | idle =>
              simp only [hpc, Option.some.injEq] at h
              subst h
              exact .receive msg hpc
          | _ => simp [hpc] at h
      | advance s => exact move_of_advance h
      | destroy s =>
          cases hpc : sys.pc s with
          | accepting =>
              simp only [hpc, Option.some.injEq] at h
              subst h
              exact .destroy (.inl hpc)
          | idle =>
              simp only [hpc, Option.some.injEq] at h
              subst h
              exact .destroy (.inr hpc)
          | _ => simp [hpc] at h
      | pop =>
          cases h
          cases hq : sys.shared.spscQueueSubscriber.pop with
          | none =>
              rw [System.pop, hq]
              exact .popNothing hq
          | some r =>
              rw [System.pop, hq]
              exact .pop hq

end Moves

/-! ## The sections of one procedure in a row -/

section Sequential

variable [DecidableEq ω] {parseJson : JsonParser}

/-- What the sections of a procedure with result `r` come to, when session `s`
runs them with nobody in between and is at `pc` afterwards. -/
def Outcome (sys : System ω) (s : ω) (pc : Pc) :
    Except (SharedState ω) (SharedState ω) → System ω → Prop
  | .ok st, sys' => sys' = (sys.setShared st).goto s pc
  | .error st, sys' => sys'.fault = true ∧ sys'.shared = st

theorem outcome_settle (sys : System ω) (s : ω) (pc : Pc)
    (r : Except (SharedState ω) (SharedState ω)) : Outcome sys s pc r (sys.settle s pc r) := by
  cases r with
  | ok st => exact rfl
  | error st => exact ⟨rfl, rfl⟩

/-- What was done at the same session's earlier sections is part of the result. -/
theorem Outcome.of_goto {sys sys' : System ω} {s : ω} {pc pc' : Pc} {st : SharedState ω}
    {r : Except (SharedState ω) (SharedState ω)}
    (h : Outcome ((sys.setShared st).goto s pc) s pc' r sys') : Outcome sys s pc' r sys' := by
  cases r with
  | ok st' =>
      rw [Outcome] at h ⊢
      rw [h]
      simp [System.goto, System.setShared]
  | error e => exact h

/-- A loop whose body is two sections, the second of them looking up the
symbol, does what the fold of its body does. -/
theorem run_loop {s : ω} {loop : List Str → Pc}
    (f : SharedState ω → Str → Except (SharedState ω) (SharedState ω))
    (hbody : ∀ (sys : System ω) topic rest, sys.fault = false → sys.pc s = loop (topic :: rest) →
      ∃ sys', Runs.run (step parseJson) sys [.advance s, .advance s] = some sys' ∧
        Outcome sys s (loop rest) (f sys.shared topic) sys')
    (topics : List Str) : ∀ sys : System ω, sys.fault = false → sys.pc s = loop topics →
      ∃ n sys', Runs.run (step parseJson) sys (List.replicate n (.advance s)) = some sys' ∧
        Outcome sys s (loop []) (topics.foldlM f sys.shared) sys' := by
  induction topics with
  | nil =>
      intro sys _ hpc
      refine ⟨0, sys, rfl, ?_⟩
      show sys = (sys.setShared sys.shared).goto s (loop [])
      rw [System.goto, ← hpc]
      simp [System.setShared]
  | cons topic rest ih =>
      intro sys hfault hpc
      obtain ⟨sys₁, hrun₁, hout₁⟩ := hbody sys topic rest hfault hpc
      rw [List.foldlM_cons]
      cases hr : f sys.shared topic with
      | error e =>
          rw [hr] at hout₁
          exact ⟨2, sys₁, hrun₁, hout₁⟩
      | ok st =>
          rw [hr] at hout₁
          have hsys₁ : sys₁ = (sys.setShared st).goto s (loop rest) := hout₁
          subst hsys₁
          obtain ⟨n, sys', hrun, hout⟩ :=
            ih ((sys.setShared st).goto s (loop rest)) hfault ((sys.setShared st).goto_pc_self s _)
          refine ⟨2 + n, sys', ?_, hout.of_goto⟩
          rw [← List.replicate_append_replicate]
          exact (Runs.run_append_of_run hrun₁ _).trans hrun

theorem step_advance {sys : System ω} (hfault : sys.fault = false) (s : ω) :
    step parseJson sys (.advance s) = sys.advance s := by
  simp only [step, hfault, Bool.false_eq_true, if_false]

variable (parseJson) in
/-- A section that needs no symbol, and the one after it that does. -/
theorem run_two_sections {sys : System ω} {s : ω} (st : SharedState ω) (mid : Pc) {after : Pc}
    {r : Except (SharedState ω) (SharedState ω)} (hfault : sys.fault = false)
    (hfirst : sys.advance s = some ((sys.setShared st).goto s mid))
    (hsecond : ∀ sys' : System ω, sys'.shared = st → sys'.pc s = mid →
      sys'.advance s = some (sys'.settle s after r)) :
    ∃ sys', Runs.run (step parseJson) sys [.advance s, .advance s] = some sys' ∧
      Outcome sys s after r sys' := by
  set sys₁ := (sys.setShared st).goto s mid with hsys₁
  have hfault₁ : sys₁.fault = false := hfault
  have hstep₁ : step parseJson sys (.advance s) = some sys₁ :=
    (step_advance hfault s).trans hfirst
  have hstep₂ : step parseJson sys₁ (.advance s) = some (sys₁.settle s after r) :=
    (step_advance hfault₁ s).trans (hsecond sys₁ rfl (System.goto_pc_self ..))
  refine ⟨_, ?_, (outcome_settle sys₁ s after r).of_goto⟩
  rw [Runs.run_cons_of_step hstep₁, Runs.run_cons_of_step hstep₂]
  rfl

variable (parseJson) in
theorem run_subscribe_body (s : ω) (sys : System ω) (topic : Str) (rest : List Str)
    (hfault : sys.fault = false) (hpc : sys.pc s = .subscribe (topic :: rest)) :
    ∃ sys', Runs.run (step parseJson) sys [.advance s, .advance s] = some sys' ∧
      Outcome sys s (.subscribe rest) (subscribeTopic s sys.shared topic) sys' := by
  refine run_two_sections parseJson (sys.shared.insertTopic s topic) (.joining topic rest) hfault
    ?_ ?_
  · rw [System.advance, hpc]
    rfl
  · intro sys' hshared hmid
    rw [System.advance, hmid]
    show some (sys'.settle s (.subscribe rest) (sys'.shared.joinSymbol s topic)) = _
    rw [hshared]
    rfl

variable (parseJson) in
theorem run_unsubscribe_body (s : ω) (leaving : Bool) (sys : System ω) (topic : Str)
    (rest : List Str) (hfault : sys.fault = false)
    (hpc : sys.pc s = .unsubscribe leaving (topic :: rest)) :
    ∃ sys', Runs.run (step parseJson) sys [.advance s, .advance s] = some sys' ∧
      Outcome sys s (.unsubscribe leaving rest) (unsubscribeTopic s sys.shared topic) sys' := by
  refine run_two_sections parseJson (sys.shared.eraseTopic s topic) (.parting leaving topic rest)
    hfault ?_ ?_
  · rw [System.advance, hpc]
    rfl
  · intro sys' hshared hmid
    rw [System.advance, hmid]
    show some (sys'.settle s (.unsubscribe leaving rest) (sys'.shared.leaveSymbol s topic)) = _
    rw [hshared]
    rfl

/-- A message whose sections nobody interrupts does what `parse` does. -/
theorem run_parse {sys : System ω} {s : ω} (hfault : sys.fault = false)
    (hidle : sys.pc s = .idle) (msg : Str) :
    ∃ n sys', Runs.run (step parseJson) sys (.receive s msg :: List.replicate n (.advance s)) =
        some sys' ∧
      Outcome sys s .idle (sys.shared.parse parseJson msg s) sys' := by
  have hreceive : step parseJson sys (.receive s msg) =
      some (sys.goto s (.ofRequest (request parseJson msg))) := by
    simp only [step, hfault, hidle, Bool.false_eq_true, if_false]
  have hnothing : Runs.run (step parseJson) sys (.receive s msg :: List.replicate 0 (.advance s)) =
      some (sys.goto s (.ofRequest (request parseJson msg))) :=
    Runs.run_cons_of_step hreceive []
  rw [SharedState.parse]
  cases hreq : request parseJson msg with
  | error e =>
      rw [hreq] at hnothing
      exact ⟨0, _, hnothing, rfl⟩
  | ok req =>
      rw [hreq] at hreceive hnothing
      cases req with
      | subscribe topics =>
          obtain ⟨n, sys', hrun, hout⟩ := run_loop (subscribeTopic s)
            (run_subscribe_body parseJson s) topics
            (sys.goto s (.subscribe topics)) hfault (sys.goto_pc_self s _)
          refine ⟨n, sys', ?_, hout.of_goto⟩
          rw [Runs.run_cons_of_step hreceive]
          exact hrun
      | unsubscribe topics =>
          obtain ⟨n, sys', hrun, hout⟩ := run_loop (unsubscribeTopic s)
            (run_unsubscribe_body parseJson s false) topics
            (sys.goto s (.unsubscribe false topics)) hfault (sys.goto_pc_self s _)
          refine ⟨n, sys', ?_, hout.of_goto⟩
          rw [Runs.run_cons_of_step hreceive]
          exact hrun
      | unsupported => exact ⟨0, _, hnothing, rfl⟩

/-- A destructor nobody interrupts does what `leave` does. -/
theorem run_leave {sys : System ω} {s : ω} (hfault : sys.fault = false)
    (hpc : sys.pc s = .accepting ∨ sys.pc s = .idle) :
    ∃ n sys', Runs.run (step parseJson) sys (.destroy s :: List.replicate n (.advance s)) =
        some sys' ∧
      Outcome sys s .absent (sys.shared.leave s) sys' := by
  have hdestroy : step parseJson sys (.destroy s) =
      some (sys.goto s (.unsubscribe true (sys.shared.topics s).toList)) := by
    rcases hpc with hpc | hpc <;> simp only [step, hfault, hpc, Bool.false_eq_true, if_false]
  obtain ⟨n, sys₁, hrun, hout⟩ := run_loop (unsubscribeTopic s)
    (run_unsubscribe_body parseJson s true) (sys.shared.topics s).toList
    (sys.goto s (.unsubscribe true (sys.shared.topics s).toList)) hfault (sys.goto_pc_self s _)
  have hloop : Runs.run (step parseJson) sys (.destroy s :: List.replicate n (.advance s)) =
      some sys₁ := (Runs.run_cons_of_step hdestroy _).trans hrun
  replace hout : Outcome sys s .erasing
    (sys.shared.websocketUnsubscribeToSymbols s (sys.shared.topics s).toList) sys₁ := hout.of_goto
  rw [SharedState.leave]
  cases hr : sys.shared.websocketUnsubscribeToSymbols s (sys.shared.topics s).toList with
  | error e =>
      rw [hr] at hout
      exact ⟨n, sys₁, hloop, hout⟩
  | ok st =>
      rw [hr] at hout
      have hsys₁ : sys₁ = (sys.setShared st).goto s .erasing := hout
      have hlast : step parseJson sys₁ (.advance s) =
          some ((sys₁.setShared (sys₁.shared.eraseSession s)).goto s .absent) := by
        have hfault₁ : sys₁.fault = false := by rw [hsys₁]; exact hfault
        rw [step_advance hfault₁, System.advance, hsys₁, System.goto_pc_self]
      refine ⟨n + 1, (sys₁.setShared (sys₁.shared.eraseSession s)).goto s .absent, ?_, ?_⟩
      · rw [List.replicate_succ', ← List.cons_append, Runs.run_append_of_run hloop,
          Runs.run_cons_of_step hlast]
        rfl
      · show _ = (sys.setShared (st.eraseSession s)).goto s .absent
        rw [hsys₁]
        simp [System.goto, System.setShared]

end Sequential

/-! ## No null symbol from configured topics -/

/-- The topics a session's procedure has still to look up. -/
def Pc.ahead : Pc → List Str
  | .subscribing topic rest => topic :: rest
  | .joining topic rest => topic :: rest
  | .unsubscribing _ topic rest => topic :: rest
  | .parting _ topic rest => topic :: rest
  | _ => []

@[simp]
theorem Pc.ahead_subscribe (topics : List Str) : (Pc.subscribe topics).ahead = topics := by
  cases topics <;> rfl

@[simp]
theorem Pc.ahead_unsubscribe (leaving : Bool) (topics : List Str) :
    (Pc.unsubscribe leaving topics).ahead = topics := by
  cases topics <;> cases leaving <;> rfl

theorem Pc.ahead_ofRequest (parseJson : JsonParser) (msg : Str) :
    (Pc.ofRequest (request parseJson msg)).ahead = namedTopics parseJson msg := by
  unfold namedTopics
  cases request parseJson msg with
  | error e => rfl
  | ok req =>
      cases req with
      | subscribe topics => exact Pc.ahead_subscribe topics
      | unsubscribe topics => exact Pc.ahead_unsubscribe false topics
      | unsupported => rfl

theorem Pc.pending_ahead {pc : Pc} {topic : Str} (h : pc.pending = some topic) :
    topic ∈ pc.ahead := by
  cases pc <;> simp_all [Pc.pending, Pc.ahead]

/-- Every topic a session holds, or has still to look up, satisfies `T`. -/
structure Named (T : Str → Prop) (sys : System ω) : Prop where
  ahead : ∀ s, ∀ t ∈ (sys.pc s).ahead, T t
  topics : ∀ s, ∀ t ∈ sys.shared.topics s, T t

/-- The messages of the action name only topics that satisfy `T`. -/
def Action.Names (parseJson : JsonParser) (T : Str → Prop) : Action ω → Prop
  | .receive _ msg => ∀ t ∈ namedTopics parseJson msg, T t
  | _ => True

theorem Action.configured_iff (parseJson : JsonParser) (cfg : Str) (a : Action ω) :
    a.Configured parseJson cfg ↔ a.Names parseJson (· ∈ split cfg) := by
  cases a <;> exact Iff.rfl

theorem named_start (T : Str → Prop) (cfg : Str) : Named T (.start cfg : System ω) := by
  refine ⟨fun _ _ ht => absurd ht List.not_mem_nil, ?_⟩
  intro s t
  show t ∈ (SharedState.init cfg : SharedState ω).topics s → T t
  rw [SharedState.init_eq]
  exact fun ht => absurd ht (OrdSet.not_mem_empty t)

section Names

variable [DecidableEq ω] {parseJson : JsonParser} {T : Str → Prop}

/-- A session moves on to other topics. -/
theorem Named.goto {sys : System ω} (h : Named T sys) {s : ω} {pc : Pc}
    (hpc : ∀ t ∈ pc.ahead, T t) : Named T (sys.goto s pc) := by
  refine ⟨?_, h.topics⟩
  intro s' t ht
  by_cases hs : s' = s
  · subst hs
    rw [System.goto_pc_self] at ht
    exact hpc t ht
  · rw [System.goto_pc_of_ne sys hs] at ht
    exact h.ahead s' t ht

/-- A session that has nothing ahead of it. -/
theorem Named.rest {sys : System ω} (h : Named T sys) {s : ω} {pc : Pc} (hpc : pc.ahead = []) :
    Named T (sys.goto s pc) := by
  refine h.goto ?_
  rw [hpc]
  exact fun _ ht => absurd ht List.not_mem_nil

omit [DecidableEq ω] in
theorem Named.setShared {sys : System ω} (h : Named T sys) {st : SharedState ω}
    (htopics : st.topics = sys.shared.topics) : Named T (sys.setShared st) := by
  refine ⟨h.ahead, ?_⟩
  show ∀ s, ∀ t ∈ st.topics s, T t
  rw [htopics]
  exact h.topics

omit [DecidableEq ω] in
theorem Named.ahead_of_pc {sys : System ω} (h : Named T sys) {s : ω} {pc : Pc}
    (hpc : sys.pc s = pc) : ∀ t ∈ pc.ahead, T t := by
  rw [← hpc]
  exact h.ahead s

/-- One session's topics change. -/
theorem Named.updateTopics {sys : System ω} (h : Named T sys) {s : ω} {ts : OrdSet Str}
    (hts : ∀ t ∈ ts, T t) : Named T (sys.setShared (sys.shared.setTopics s ts)) := by
  refine ⟨h.ahead, ?_⟩
  intro s' t ht
  by_cases hs : s' = s
  · subst hs
    rw [System.setShared, SharedState.setTopics_self] at ht
    exact hts t ht
  · rw [System.setShared, SharedState.setTopics_of_ne _ hs] at ht
    exact h.topics s' t ht

theorem Named.step {sys sys' : System ω} {a : Action ω} (h : Named T sys)
    (ha : a.Names parseJson T) (hstep : step parseJson sys a = some sys') : Named T sys' := by
  cases (move_of_step hstep).2 with
  | construct hpc =>
      refine (h.updateTopics ?_).rest rfl
      intro t ht
      exact absurd ht (OrdSet.not_mem_empty t)
  | accept hpc =>
      refine Named.rest ?_ rfl
      exact h.setShared rfl
  | receive msg hpc =>
      refine h.goto ?_
      rw [Pc.ahead_ofRequest]
      exact ha
  | @destroy s hpc =>
      refine h.goto ?_
      rw [Pc.ahead_unsubscribe]
      exact h.topics s
  | @insertTopic s topic rest hpc =>
      have hahead := h.ahead_of_pc hpc
      refine (h.updateTopics ?_).goto hahead
      intro t ht
      rcases OrdSet.mem_insert.mp ht with rfl | ht
      · exact hahead t List.mem_cons_self
      · exact h.topics s t ht
  | @joinSymbol s topic rest sym hpc hsym =>
      refine (h.setShared (SharedState.settleSymbol_topics ..)).goto ?_
      rw [Pc.ahead_subscribe]
      exact fun t ht => h.ahead_of_pc hpc t (List.mem_cons_of_mem topic ht)
  | @eraseTopic s leaving topic rest hpc =>
      have hahead := h.ahead_of_pc hpc
      refine (h.updateTopics ?_).goto hahead
      intro t ht
      exact h.topics s t (OrdSet.mem_erase.mp ht).2
  | @leaveSymbol s leaving topic rest sym hpc hsym =>
      refine (h.setShared (SharedState.settleSymbol_topics ..)).goto ?_
      rw [Pc.ahead_unsubscribe]
      exact fun t ht => h.ahead_of_pc hpc t (List.mem_cons_of_mem topic ht)
  | nullSymbol hpending hnull => exact ⟨h.ahead, h.topics⟩
  | eraseSession hpc =>
      refine Named.rest ?_ rfl
      exact h.setShared rfl
  | pop hq => exact ⟨h.ahead, h.topics⟩
  | popNothing hq => exact h

end Names

/-- What a run of configured messages keeps. -/
structure Sound (cfg : Str) (sys : System ω) : Prop where
  noFault : sys.fault = false
  intact : sys.shared.Intact cfg
  ahead : ∀ s, ∀ t ∈ (sys.pc s).ahead, t ∈ split cfg
  topics : ∀ s, ∀ t ∈ sys.shared.topics s, t ∈ split cfg

theorem Sound.named {cfg : Str} {sys : System ω} (h : Sound cfg sys) :
    Named (· ∈ split cfg) sys :=
  ⟨h.ahead, h.topics⟩

theorem sound_start (cfg : Str) : Sound cfg (.start cfg : System ω) := by
  obtain ⟨hahead, htopics⟩ := named_start (ω := ω) (· ∈ split cfg) cfg
  exact ⟨rfl, SharedState.init_intact cfg, hahead, htopics⟩

section Soundness

variable [DecidableEq ω] {parseJson : JsonParser} {cfg : Str}

/-- Until a null symbol is met the symbols are the configured ones, whatever
the messages. -/
theorem intact_step {sys sys' : System ω} {a : Action ω} (h : sys.shared.Intact cfg)
    (hstep : step parseJson sys a = some sys') : sys'.fault = false → sys'.shared.Intact cfg := by
  intro hfault
  cases (move_of_step hstep).2 with
  | construct hpc => exact h.of_symbols rfl
  | accept hpc => exact h.of_symbols rfl
  | receive msg hpc => exact h
  | destroy hpc => exact h
  | insertTopic hpc => exact h.of_symbols rfl
  | joinSymbol hpc hsym => exact h.settleSymbol (h.mem_of_symbol hsym) _ _ _
  | eraseTopic hpc => exact h.of_symbols rfl
  | leaveSymbol hpc hsym => exact h.settleSymbol (h.mem_of_symbol hsym) _ _ _
  | nullSymbol hpending hnull => cases hfault
  | eraseSession hpc => exact h.of_symbols rfl
  | pop hq => exact h.of_symbols rfl
  | popNothing hq => exact h

theorem Sound.step {sys sys' : System ω} {a : Action ω} (h : Sound cfg sys)
    (ha : a.Configured parseJson cfg) (hstep : step parseJson sys a = some sys') :
    Sound cfg sys' := by
  obtain ⟨hahead, htopics⟩ := h.named.step ((Action.configured_iff _ _ _).mp ha) hstep
  have hfault : sys'.fault = false := by
    cases (move_of_step hstep).2 with
    | @nullSymbol s topic hpending hnull =>
        have htopic := h.ahead s topic (Pc.pending_ahead hpending)
        obtain ⟨sym, hsym⟩ := h.intact.configured topic htopic
        exact absurd hsym (hnull sym)
    | _ => exact h.noFault
  exact ⟨hfault, intact_step h.intact hstep hfault, hahead, htopics⟩

theorem sound_run {as : List (Action ω)} {sys : System ω}
    (hconf : ∀ a ∈ as, a.Configured parseJson cfg)
    (hrun : Runs.run (Web.step parseJson) (.start cfg) as = some sys) : Sound cfg sys :=
  Runs.run_inv (fun h ha hstep => Sound.step h ha hstep) (sound_start cfg) hconf hrun

/-- **As long as the messages name only configured topics, no null symbol is
met and the symbols are the configured ones; and they stay so through one more
message exactly when it, too, names only configured topics.** -/
theorem symbols_intact_iff {as : List (Action ω)} {sys : System ω}
    (hconf : ∀ a ∈ as, a.Configured parseJson cfg)
    (hrun : Runs.run (Web.step parseJson) (.start cfg) as = some sys) :
    sys.fault = false ∧ sys.shared.Intact cfg ∧
      ∀ msg s, (∃ st, sys.shared.parse parseJson msg s = .ok st ∧ st.Intact cfg) ↔
        ∀ t ∈ namedTopics parseJson msg, t ∈ split cfg := by
  have h : Sound cfg sys := sound_run hconf hrun
  exact ⟨h.noFault, h.intact, fun msg s => h.intact.parse_iff msg s⟩

end Soundness

def subscribeEth : Str := "\x7b\"ty\":1,\"to\":\"ETH-USD\"\x7d".toList

def unsubscribeEth : Str := "\x7b\"ty\":2,\"to\":\"ETH-USD\"\x7d".toList

def subscribeUnknown : Str := "\x7b\"ty\":1,\"to\":\"ETH-USD,FOO\"\x7d".toList

/-- A parser that knows three client messages. -/
def clientParser : JsonParser := tableParser
  [(subscribeEth, .object [("ty".toList, .int64 1), ("to".toList, .string "ETH-USD".toList)]),
    (unsubscribeEth, .object [("ty".toList, .int64 2), ("to".toList, .string "ETH-USD".toList)]),
    (subscribeUnknown,
      .object [("ty".toList, .int64 1), ("to".toList, .string "ETH-USD,FOO".toList)])]

def twoTopics : Str := "BTC-USD,ETH-USD".toList

/-- Two sessions subscribe to the same topic; the second is between the two
sections of its only topic. -/
def twoSessions : List (Action Nat) :=
  [.construct 0, .accept 0, .receive 0 subscribeEth, .advance 0, .construct 1, .accept 1,
    .advance 0, .receive 1 subscribeEth, .advance 1]

theorem symbols_intact_two_sessions :
    ∃ sys : System Nat,
      Runs.run (step clientParser) (.start twoTopics) twoSessions = some sys ∧
        sys.fault = false ∧ sys.shared.Intact twoTopics ∧
        ∀ msg s, (∃ st, sys.shared.parse clientParser msg s = .ok st ∧ st.Intact twoTopics) ↔
          ∀ t ∈ namedTopics clientParser msg, t ∈ split twoTopics := by
  have hmsg : ∀ t ∈ namedTopics clientParser subscribeEth, t ∈ split twoTopics := by decide
  have hconf : ∀ a ∈ twoSessions, a.Configured clientParser twoTopics := by
    simpa [twoSessions, Action.Configured] using hmsg
  have hrun : Runs.run (step clientParser) (.start twoTopics) twoSessions = some _ := rfl
  exact ⟨_, hrun, symbols_intact_iff hconf hrun⟩

/-- A message that also names a topic that is not configured ends, in the
first state in which it can be sent, in a null dereference. -/
theorem unknown_topic_null :
    ∃ sys sys' : System Nat,
      Runs.run (step clientParser) (.start twoTopics) [.construct 0, .accept 0] = some sys ∧
        (∀ st, sys.shared.parse clientParser subscribeUnknown 0 ≠ .ok st) ∧
        Runs.run (step clientParser) sys
            [.receive 0 subscribeUnknown, .advance 0, .advance 0, .advance 0, .advance 0] =
          some sys' ∧ sys'.fault = true := by
  refine ⟨_, _, rfl, ?_, rfl, rfl⟩
  intro st h
  cases h

end SravzBackend.Web
