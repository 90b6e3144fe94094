/-
# `Web.Publisher` — every tick to every session that listens

The publisher's loop takes one message after the other off its queue.  Under
the symbol's mutex it makes a list of weak pointers to the sessions subscribed
to the topic, and then, holding nothing, locks one after the other and sends
where there is still a session.  Between any two of these steps sessions may
subscribe, unsubscribe and be destroyed.

`Turn` is what one turn of the loop comes to: the message, the sessions of the
snapshot, and which of them have been locked with what answer.
`ticks_delivered`: in every interleaving the turns are the messages popped, in
order; each locks every session of its snapshot once and nobody else; and what
has been sent to a session is the messages of the turns that found it.
-/
import SravzBackend.Web.Subscriptions

namespace SravzBackend.Web

variable {ω : Type}

/-! ## `weak_ptr` -/

/-- Whether a `shared_ptr` to the session is left; its destructor runs when
there is none. -/
def Pc.owned : Pc → Bool
  | .absent => false
  | .unsubscribing leaving _ _ => !leaving
  | .parting leaving _ _ => !leaving
  | .erasing => false
  | .accepting => true
  | .idle => true
  | .subscribing _ _ => true
  | .joining _ _ => true

/-- A `weak_ptr`: an address, and which of the sessions that have lived
there it belongs to. -/
structure WeakPtr (ω : Type) where
  address : ω
  generation : Nat
deriving DecidableEq

/-! ## `publisher::publish` -/

/-- One turn of the loop: the message popped, the sessions of the snapshot,
and what `lock` answered for those that have had their turn. -/
structure Turn (ω : Type) where
  topic : Str
  message : Str
  members : Finset (WeakPtr ω)
  locks : List (WeakPtr ω × Bool)

def Turn.entry (t : Turn ω) : Str × Str := (t.topic, t.message)

def Turn.locked (t : Turn ω) : List (WeakPtr ω) := t.locks.map Prod.fst

/-- Where the loop is: about to pop, about to lock the mutex of a symbol, or
at a weak pointer of its list. -/
inductive PublisherPc (ω : Type) where
  | waiting
  | popped (topic message : Str)
  | sending (turn : Turn ω) (wp : WeakPtr ω) (rest : List (WeakPtr ω))

/-- The sessions and the publisher.  `generation s` counts the sessions that
have been constructed at `s`.  `popped`, `finished` and `sent` are the record
of what the publisher has done; nothing reads them. -/
structure Publishing (ω : Type) where
  system : System ω
  generation : ω → Nat
  spscQueue : BoundedQueue (Str × Str) 1024
  pc : PublisherPc ω
  popped : List (Str × Str)
  finished : List (Turn ω)
  sent : WeakPtr ω → List Str

namespace Publishing

def start (cfg : Str) : Publishing ω :=
  ⟨.start cfg, fun _ => 0, .empty, .waiting, [], [], fun _ => []⟩

/-- `p->weak_from_this()` -/
def weakFromThis (p : Publishing ω) (s : ω) : WeakPtr ω := ⟨s, p.generation s⟩

/-- Whether `lock` gives a session. -/
def owned (p : Publishing ω) (wp : WeakPtr ω) : Bool :=
  p.generation wp.address == wp.generation && (p.system.pc wp.address).owned

/-- The head of the loop over the weak pointers. -/
def send (p : Publishing ω) (turn : Turn ω) : List (WeakPtr ω) → Publishing ω
  | [] => { p with pc := .waiting, finished := p.finished ++ [turn] }
  | wp :: rest => { p with pc := .sending turn wp rest }

/-- `get_message_with_backoff`; on an empty queue it sleeps and tries again. -/
def pop (p : Publishing ω) : Publishing ω :=
  match p.spscQueue.pop with
  | some (entry, queue) =>
      { p with spscQueue := queue, pc := .popped entry.1 entry.2, popped := p.popped ++ [entry] }
  | none => p

/-- The turn of the message popped last, and those before it. -/
def turns (p : Publishing ω) : List (Turn ω) :=
  match p.pc with
  | .sending turn _ _ => p.finished ++ [turn]
  | _ => p.finished

/-- The message popped whose snapshot is still to come. -/
def inHand (p : Publishing ω) : List (Str × Str) :=
  match p.pc with
  | .popped topic message => [(topic, message)]
  | _ => []

section AtPc

variable {p : Publishing ω}

theorem turns_of_waiting (h : p.pc = .waiting) : p.turns = p.finished := by rw [turns, h]

theorem turns_of_popped {topic message : Str} (h : p.pc = .popped topic message) :
    p.turns = p.finished := by rw [turns, h]

theorem turns_of_sending {turn : Turn ω} {wp : WeakPtr ω} {rest : List (WeakPtr ω)}
    (h : p.pc = .sending turn wp rest) : p.turns = p.finished ++ [turn] := by rw [turns, h]

theorem inHand_of_waiting (h : p.pc = .waiting) : p.inHand = [] := by rw [inHand, h]

theorem inHand_of_popped {topic message : Str} (h : p.pc = .popped topic message) :
    p.inHand = [(topic, message)] := by rw [inHand, h]

theorem inHand_of_sending {turn : Turn ω} {wp : WeakPtr ω} {rest : List (WeakPtr ω)}
    (h : p.pc = .sending turn wp rest) : p.inHand = [] := by rw [inHand, h]

end AtPc

variable [DecidableEq ω]

/-- The section under the symbol's mutex.  `order` is the order in which the
set of sessions is gone through. -/
def snapshot (p : Publishing ω) (topic message : Str) (order : List ω) :
    Option (Publishing ω) :=
  match p.system.shared.symbolsAt topic with
  | (st, none) => some { p with system := { p.system with shared := st, fault := true } }
  | (st, some sym) =>
      if order.Nodup ∧ order.toFinset = sym.sessions then
        some ({ p with system := p.system.setShared st }.send
          ⟨topic, message, sym.sessions.image p.weakFromThis, []⟩ (order.map p.weakFromThis))
      else none

/-- Lock one weak pointer, and send if that gave a session. -/
def lock (p : Publishing ω) (turn : Turn ω) (wp : WeakPtr ω) (rest : List (WeakPtr ω)) :
    Publishing ω :=
  let sent :=
    if p.owned wp then Function.update p.sent wp (p.sent wp ++ [turn.message]) else p.sent
  { p with sent := sent }.send { turn with locks := turn.locks ++ [(wp, p.owned wp)] } rest

/-- A session constructed at an address is another one than those before it. -/
def generationAfter (p : Publishing ω) : Action ω → ω → Nat
  | .construct s => Function.update p.generation s (p.generation s + 1)
  | _ => p.generation

end Publishing

inductive PublishAction (ω : Type) where
  | session (a : Action ω)
  | onMessage (channel msg : Str)
  | pop
  | snapshot (order : List ω)
  | lock

section Steps

variable [DecidableEq ω] (parseJson : JsonParser)

def publishStep (p : Publishing ω) (a : PublishAction ω) : Option (Publishing ω) :=
  if p.system.fault then none
  else
    match a with
    | .session a =>
        match step parseJson p.system a with
        | some sys => some { p with system := sys, generation := p.generationAfter a }
        | none => none
    | .onMessage channel msg => some { p with spscQueue := (p.spscQueue.push (channel, msg)).1 }
    | .pop =>
        match p.pc with
        | .waiting => some p.pop
        | _ => none
    | .snapshot order =>
        match p.pc with
        | .popped topic message => p.snapshot topic message order
        | _ => none
    | .lock =>
        match p.pc with
        | .sending turn wp rest => some (p.lock turn wp rest)
        | _ => none

/-- What a step of the publisher or beside it can do. -/
inductive PublishMove (p : Publishing ω) : PublishAction ω → Publishing ω → Prop where
  | session {a sys} (h : step parseJson p.system a = some sys) :
      PublishMove p (.session a) { p with system := sys, generation := p.generationAfter a }
  | onMessage (channel msg) :
      PublishMove p (.onMessage channel msg)
        { p with spscQueue := (p.spscQueue.push (channel, msg)).1 }
  | pop {entry queue} (h : p.pc = .waiting) (hq : p.spscQueue.pop = some (entry, queue)) :
      PublishMove p .pop
        { p with
          spscQueue := queue, pc := .popped entry.1 entry.2, popped := p.popped ++ [entry] }
  | popNothing (hq : p.spscQueue.pop = none) : PublishMove p .pop p
  | snapshot {topic message sym order} (h : p.pc = .popped topic message)
      (hsym : p.system.shared.symbols topic = some (some sym)) (hnodup : order.Nodup)
      (horder : order.toFinset = sym.sessions) :
      PublishMove p (.snapshot order)
        (p.send ⟨topic, message, sym.sessions.image p.weakFromThis, []⟩
          (order.map p.weakFromThis))
  | nullSymbol {topic message order} (h : p.pc = .popped topic message)
      (hnull : ∀ sym, p.system.shared.symbols topic ≠ some (some sym)) :
      PublishMove p (.snapshot order)
        { p with
          system :=
            { p.system with shared := p.system.shared.setSymbol topic none, fault := true } }
  | lock {turn wp rest} (h : p.pc = .sending turn wp rest) :
      PublishMove p .lock (p.lock turn wp rest)

end Steps

section Moves

variable [DecidableEq ω] {parseJson : JsonParser}

/-- With a symbol there, a snapshot lists its sessions. -/
theorem Publishing.snapshot_eq {p : Publishing ω} {topic : Str} {sym : Symbol ω}
    (h : p.system.shared.symbols topic = some (some sym)) (message : Str) (order : List ω) :
    p.snapshot topic message order =
      if order.Nodup ∧ order.toFinset = sym.sessions then
        some (p.send ⟨topic, message, sym.sessions.image p.weakFromThis, []⟩
          (order.map p.weakFromThis))
      else none := by
  simp only [snapshot, SharedState.symbolsAt, h]
  rfl

theorem Publishing.snapshot_null {p : Publishing ω} {topic : Str}
    (h : ∀ sym, p.system.shared.symbols topic ≠ some (some sym)) (message : Str)
    (order : List ω) :
    p.snapshot topic message order =
      some { p with
        system := { p.system with shared := p.system.shared.setSymbol topic none, fault := true } }
    := by
  rw [snapshot, SharedState.symbolsAt_of_null h]

theorem publishMove_of_step {p p' : Publishing ω} {a : PublishAction ω}
    (h : publishStep parseJson p a = some p') : PublishMove parseJson p a p' := by
  cases hfault : p.system.fault with
  | true => simp [publishStep, hfault] at h
  | false =>
      simp only [publishStep, hfault, Bool.false_eq_true, if_false] at h
      cases a with
      | session a =>
          cases hstep : step parseJson p.system a with
          | none => simp [hstep] at h
          | some sys =>
              simp only [hstep, Option.some.injEq] at h
              subst h
              exact .session hstep
      | onMessage channel msg =>
          cases h
          exact .onMessage channel msg
      | pop =>
          cases hpc : p.pc with
          | waiting =>
              simp only [hpc, Option.some.injEq] at h
              subst h
              unfold Publishing.pop
              cases hq : p.spscQueue.pop with
              | none => exact .popNothing hq
              | some r => exact .pop hpc hq
          | _ => simp [hpc] at h
      | snapshot order =>
          cases hpc : p.pc with
          | popped topic message =>
              simp only [hpc] at h
              by_cases hsym : ∃ sym, p.system.shared.symbols topic = some (some sym)
              · obtain ⟨sym, hsym⟩ := hsym
                rw [Publishing.snapshot_eq hsym, Option.ite_none_right_eq_some] at h
                obtain ⟨⟨hnodup, horder⟩, h⟩ := h
                cases h
                exact .snapshot hpc hsym hnodup horder
              · rw [Publishing.snapshot_null (not_exists.mp hsym)] at h
                cases h
                exact .nullSymbol hpc (not_exists.mp hsym)
          | _ => simp [hpc] at h
      | lock =>
          cases hpc : p.pc with
          | sending turn wp rest =>
              simp only [hpc, Option.some.injEq] at h
              subst h
              exact .lock hpc
          | _ => simp [hpc] at h

end Moves

/-! ## Going through the list -/

section Sending

variable (p : Publishing ω) (turn : Turn ω) (rest : List (WeakPtr ω))

@[simp]
theorem Publishing.send_turns : (p.send turn rest).turns = p.finished ++ [turn] := by
  cases rest <;> rfl

@[simp]
theorem Publishing.send_inHand : (p.send turn rest).inHand = [] := by
  cases rest <;> rfl

@[simp]
theorem Publishing.send_popped : (p.send turn rest).popped = p.popped := by
  cases rest <;> rfl

@[simp]
theorem Publishing.send_sent : (p.send turn rest).sent = p.sent := by
  cases rest <;> rfl

@[simp]
theorem Publishing.send_system : (p.send turn rest).system = p.system := by
  cases rest <;> rfl

end Sending

/-- The turn has locked, and has still to lock, each of its sessions once and
nobody else. -/
structure Turn.Covers (t : Turn ω) (rest : List (WeakPtr ω)) : Prop where
  nodup : (t.locked ++ rest).Nodup
  mem : ∀ wp, wp ∈ t.locked ++ rest ↔ wp ∈ t.members

variable [DecidableEq ω]

/-- What has been sent to a session: the messages of the turns that found it. -/
def messagesFor (ts : List (Turn ω)) (wp : WeakPtr ω) : List Str :=
  (ts.filter (fun t => (wp, true) ∈ t.locks)).map Turn.message

/-- What every interleaving keeps. -/
structure Delivers (p : Publishing ω) : Prop where
  order : p.popped = p.turns.map Turn.entry ++ p.inHand
  finished : ∀ t ∈ p.finished, t.Covers []
  current : ∀ t wp rest, p.pc = .sending t wp rest → t.Covers (wp :: rest)
  sent : ∀ wp, p.sent wp = messagesFor p.turns wp

theorem delivers_start (cfg : Str) : Delivers (.start cfg : Publishing ω) :=
  ⟨rfl, nofun, nofun, fun _ => rfl⟩

theorem messagesFor_concat (ts : List (Turn ω)) (t : Turn ω) (wp : WeakPtr ω) :
    messagesFor (ts ++ [t]) wp =
      messagesFor ts wp ++ if (wp, true) ∈ t.locks then [t.message] else [] := by
  by_cases h : (wp, true) ∈ t.locks <;> simp [messagesFor, h]

/-- The list of weak pointers has a next one, or the turn is over. -/
theorem Delivers.send {p : Publishing ω} {turn : Turn ω} {rest : List (WeakPtr ω)}
    (horder : p.popped = (p.finished ++ [turn]).map Turn.entry)
    (hfinished : ∀ t ∈ p.finished, t.Covers []) (hcovers : turn.Covers rest)
    (hsent : ∀ wp, p.sent wp = messagesFor (p.finished ++ [turn]) wp) :
    Delivers (p.send turn rest) := by
  refine ⟨?_, ?_, ?_, ?_⟩
  · rw [Publishing.send_popped, Publishing.send_turns, Publishing.send_inHand, List.append_nil]
    exact horder
  · cases rest with
    | nil =>
        intro t ht
        rcases List.mem_append.mp ht with ht | ht
        · exact hfinished t ht
        · rw [List.mem_singleton.mp ht]
          exact hcovers
    | cons wp rest => exact hfinished
  · cases rest with
    | nil => nofun
    | cons wp rest =>
        rintro t wp' rest' ⟨⟩
        exact hcovers
  · rw [Publishing.send_sent, Publishing.send_turns]
    exact hsent

/-- The list a snapshot makes covers the sessions of the snapshot. -/
theorem covers_snapshot (p : Publishing ω) (topic message : Str) {order : List ω}
    (hnodup : order.Nodup) {X : Finset ω} (horder : order.toFinset = X) :
    Turn.Covers ⟨topic, message, X.image p.weakFromThis, []⟩ (order.map p.weakFromThis) := by
  have hinj : Function.Injective p.weakFromThis := fun s s' h => congrArg WeakPtr.address h
  refine ⟨hnodup.map hinj, ?_⟩
  intro wp
  rw [Turn.locked, List.map_nil, List.nil_append, List.mem_map, Finset.mem_image, ← horder]
  simp only [List.mem_toFinset]

omit [DecidableEq ω] in
/-- A weak pointer moves from the list to those that have been locked. -/
theorem Turn.Covers.lock {turn : Turn ω} {wp : WeakPtr ω} {rest : List (WeakPtr ω)}
    (h : turn.Covers (wp :: rest)) (b : Bool) :
    Turn.Covers { turn with locks := turn.locks ++ [(wp, b)] } rest := by
  have hlocked : Turn.locked { turn with locks := turn.locks ++ [(wp, b)] } ++ rest =
      turn.locked ++ wp :: rest := by
    simp [Turn.locked]
  refine ⟨?_, ?_⟩
  · rw [hlocked]
    exact h.nodup
  · rw [hlocked]
    exact h.mem

omit [DecidableEq ω] in
/-- What is still in the list has not been locked. -/
theorem Turn.Covers.not_mem_locks {turn : Turn ω} {wp : WeakPtr ω} {rest : List (WeakPtr ω)}
    (h : turn.Covers (wp :: rest)) (b : Bool) : (wp, b) ∉ turn.locks := by
  intro hmem
  have hlocked : wp ∈ turn.locked := List.mem_map_of_mem hmem
  exact (List.disjoint_of_nodup_append h.nodup) hlocked List.mem_cons_self

/-- A lock adds to what was sent to its session, and to nobody else's. -/
theorem messagesFor_lock {ts : List (Turn ω)} {turn : Turn ω} {wp : WeakPtr ω}
    (h : (wp, true) ∉ turn.locks) (b : Bool) :
    messagesFor (ts ++ [{ turn with locks := turn.locks ++ [(wp, b)] }]) =
      if b then Function.update (messagesFor (ts ++ [turn])) wp
        (messagesFor (ts ++ [turn]) wp ++ [turn.message])
      else messagesFor (ts ++ [turn]) := by
  funext wp'
  cases b with
  | false => simp [messagesFor_concat]
  | true =>
      by_cases heq : wp' = wp
      · subst heq
        simp [messagesFor_concat, h]
      · simp [messagesFor_concat, heq]

theorem Delivers.lock {p : Publishing ω} {turn : Turn ω} {wp : WeakPtr ω}
    {rest : List (WeakPtr ω)} (h : Delivers p) (hpc : p.pc = .sending turn wp rest) :
    Delivers (p.lock turn wp rest) := by
  have hcovers : turn.Covers (wp :: rest) := h.current turn wp rest hpc
  have hturns : p.turns = p.finished ++ [turn] := Publishing.turns_of_sending hpc
  have hsent : p.sent = messagesFor (p.finished ++ [turn]) := by
    funext wp'
    rw [h.sent wp', hturns]
  refine Delivers.send ?_ h.finished (hcovers.lock _) ?_
  · show p.popped = _
    rw [h.order, hturns, Publishing.inHand_of_sending hpc]
    simp [Turn.entry]
  · intro wp'
    show (if p.owned wp then Function.update p.sent wp (p.sent wp ++ [turn.message])
      else p.sent) wp' = _
    rw [messagesFor_lock (hcovers.not_mem_locks true), hsent]

variable {parseJson : JsonParser}

theorem Delivers.step {p p' : Publishing ω} {a : PublishAction ω} (h : Delivers p)
    (hstep : publishStep parseJson p a = some p') : Delivers p' := by
  cases publishMove_of_step hstep with
  | session hsys => exact ⟨h.order, h.finished, h.current, h.sent⟩
  | onMessage channel msg => exact ⟨h.order, h.finished, h.current, h.sent⟩
  | @pop entry queue hpc hq =>
      refine ⟨?_, h.finished, nofun, ?_⟩
      · show p.popped ++ [entry] = p.finished.map Turn.entry ++ [entry]
        rw [h.order, Publishing.turns_of_waiting hpc, Publishing.inHand_of_waiting hpc,
          List.append_nil]
      · intro wp
        show p.sent wp = messagesFor p.finished wp
        rw [h.sent wp, Publishing.turns_of_waiting hpc]
  | popNothing hq => exact h
  | @snapshot topic message sym order hpc hsym hnodup horder =>
      refine Delivers.send ?_ h.finished (covers_snapshot p topic message hnodup horder) ?_
      · rw [h.order, Publishing.turns_of_popped hpc, Publishing.inHand_of_popped hpc,
          List.map_append]
        rfl
      · intro wp
        rw [messagesFor_concat, h.sent wp, Publishing.turns_of_popped hpc]
        simp
  | nullSymbol hpc hnull => exact ⟨h.order, h.finished, h.current, h.sent⟩
  | lock hpc => exact h.lock hpc

theorem delivers_run {cfg : Str} {as : List (PublishAction ω)} {p : Publishing ω}
    (hrun : Runs.run (publishStep parseJson) (.start cfg) as = some p) : Delivers p :=
  Runs.run_inv (G := fun _ => True) (fun h _ hstep => Delivers.step h hstep) (delivers_start cfg)
    (fun _ _ => trivial) hrun

/-! ## The record is of what happened -/

/-- The turn's sessions are those of a snapshot taken in this state. -/
def Turn.SnapshotIn (t : Turn ω) (q : Publishing ω) (a : PublishAction ω) : Prop :=
  (∃ order, a = .snapshot order) ∧ q.pc = .popped t.topic t.message ∧
    t.members = (q.system.shared.sessionsOf t.topic).image q.weakFromThis

/-- The turn has locked the weak pointer in this state, with this answer. -/
def Turn.LockIn (t : Turn ω) (wp : WeakPtr ω) (b : Bool) (q : Publishing ω)
    (a : PublishAction ω) : Prop :=
  a = .lock ∧ (∃ locks rest, q.pc = .sending { t with locks := locks } wp rest) ∧ b = q.owned wp

/-- Each turn's snapshot and locks are steps of the run. -/
structure Recorded (parseJson : JsonParser) (cfg : Str) (as : List (PublishAction ω))
    (p : Publishing ω) : Prop where
  snapshot : ∀ t ∈ p.turns, Runs.Took (publishStep parseJson) (.start cfg) as t.SnapshotIn
  lock : ∀ t ∈ p.turns, ∀ wp b, (wp, b) ∈ t.locks →
    Runs.Took (publishStep parseJson) (.start cfg) as (t.LockIn wp b)

section Record

variable {cfg : Str} {as : List (PublishAction ω)} {p p' : Publishing ω} {a : PublishAction ω}

theorem Recorded.same (h : Recorded parseJson cfg as p) (hturns : p'.turns = p.turns) :
    Recorded parseJson cfg (as ++ [a]) p' := by
  refine ⟨?_, ?_⟩
  · rw [hturns]
    exact fun t ht => (h.snapshot t ht).append [a]
  · rw [hturns]
    exact fun t ht wp b hmem => (h.lock t ht wp b hmem).append [a]

/-- One turn is new or has gone on; the others were there before. -/
theorem Recorded.last {ts : List (Turn ω)} {turn : Turn ω} (h : Recorded parseJson cfg as p)
    (hts : ∀ t ∈ ts, t ∈ p.turns) (hturns : p'.turns = ts ++ [turn])
    (hsnapshot : Runs.Took (publishStep parseJson) (.start cfg) (as ++ [a]) turn.SnapshotIn)
    (hlock : ∀ wp b, (wp, b) ∈ turn.locks →
      Runs.Took (publishStep parseJson) (.start cfg) (as ++ [a]) (turn.LockIn wp b)) :
    Recorded parseJson cfg (as ++ [a]) p' := by
  refine ⟨?_, ?_⟩
  · intro t ht
    rw [hturns] at ht
    rcases List.mem_append.mp ht with ht | ht
    · exact (h.snapshot t (hts t ht)).append [a]
    · rw [List.mem_singleton.mp ht]
      exact hsnapshot
  · intro t ht
    rw [hturns] at ht
    rcases List.mem_append.mp ht with ht | ht
    · exact fun wp b hmem => (h.lock t (hts t ht) wp b hmem).append [a]
    · rw [List.mem_singleton.mp ht]
      exact hlock

theorem Recorded.step (hrun : Runs.run (publishStep parseJson) (.start cfg) as = some p)
    (h : Recorded parseJson cfg as p) (hstep : publishStep parseJson p a = some p') :
    Recorded parseJson cfg (as ++ [a]) p' := by
  cases publishMove_of_step hstep with
  | session hsys => exact h.same rfl
  | onMessage channel msg => exact h.same rfl
  | pop hpc hq =>
      exact h.same (Publishing.turns_of_waiting hpc).symm
  | popNothing hq => exact h.same rfl
  | @snapshot topic message sym order hpc hsym hnodup horder =>
      have hturns : p.turns = p.finished := Publishing.turns_of_popped hpc
      refine h.last (fun t ht => hturns ▸ ht) (Publishing.send_turns ..) ?_ nofun
      refine Runs.took_concat hrun ⟨⟨order, rfl⟩, hpc, ?_⟩
      rw [SharedState.sessionsOf_of_symbol hsym]
  | nullSymbol hpc hnull => exact h.same rfl
  | @lock turn wp rest hpc =>
      have hturns : p.turns = p.finished ++ [turn] := Publishing.turns_of_sending hpc
      have hmem : turn ∈ p.turns := by simp [hturns]
      have hts : ∀ t ∈ p.finished, t ∈ p.turns := fun t ht => by simp [hturns, ht]
      refine h.last hts (Publishing.send_turns ..) ((h.snapshot turn hmem).append [_]) ?_
      intro wp' b hlocks
      rcases List.mem_append.mp hlocks with hlocks | hlocks
      · exact (h.lock turn hmem wp' b hlocks).append [_]
      · cases List.mem_singleton.mp hlocks
        exact Runs.took_concat hrun ⟨rfl, ⟨turn.locks, rest, hpc⟩, rfl⟩

theorem recorded_run (hrun : Runs.run (publishStep parseJson) (.start cfg) as = some p) :
    Recorded parseJson cfg as p :=
  Runs.run_inv_trace ⟨nofun, nofun⟩ (fun hrun h hstep => Recorded.step hrun h hstep) hrun

end Record

/-! ## The sessions behind the pointers -/

/-- Every configured topic has a symbol. -/
def SharedState.Covered (cfg : Str) (st : SharedState ω) : Prop :=
  ∀ t ∈ split cfg, ∃ sym, st.symbols t = some (some sym)

omit [DecidableEq ω] in
/-- A symbol is put where there was one, or a null pointer where there was none. -/
theorem SharedState.Covered.update {cfg : Str} {st st' : SharedState ω} (h : st.Covered cfg)
    {topic : Str} {p : Option (Symbol ω)}
    (hsymbols : st'.symbols = Function.update st.symbols topic (some p))
    (hp : p ≠ none ∨ ∀ sym, st.symbols topic ≠ some (some sym)) : st'.Covered cfg := by
  intro t ht
  obtain ⟨sym, hsym⟩ := h t ht
  rw [hsymbols]
  by_cases heq : t = topic
  · subst heq
    rw [Function.update_self]
    rcases hp with hp | hnull
    · obtain ⟨sym', hsym'⟩ := Option.ne_none_iff_exists'.mp hp
      exact ⟨sym', by rw [hsym']⟩
    · exact absurd hsym (hnull sym)
  · rw [Function.update_of_ne heq]
    exact ⟨sym, hsym⟩

theorem SharedState.Covered.step {cfg : Str} {sys sys' : System ω} {a : Action ω}
    (h : sys.shared.Covered cfg) (hstep : Web.step parseJson sys a = some sys') :
    sys'.shared.Covered cfg := by
  cases (move_of_step hstep).2 with
  | joinSymbol hpc hsym => exact h.update (settleSymbol_symbols ..) (.inl nofun)
  | leaveSymbol hpc hsym => exact h.update (settleSymbol_symbols ..) (.inl nofun)
  | nullSymbol hpending hnull => exact h.update rfl (.inr hnull)
  | _ => exact h

/-- What the publisher finds when it takes a snapshot. -/
structure Listened (cfg : Str) (p : Publishing ω) : Prop where
  covered : p.system.shared.Covered cfg
  linked : ∀ s, Linked p.system.shared s (p.system.pc s)

omit [DecidableEq ω] in
theorem listened_start (cfg : Str) : Listened cfg (.start cfg : Publishing ω) :=
  ⟨(SharedState.init_intact cfg).configured, linked_init cfg⟩

theorem Listened.step {cfg : Str} {p p' : Publishing ω} {a : PublishAction ω}
    (h : Listened cfg p) (hstep : publishStep parseJson p a = some p') : Listened cfg p' := by
  cases publishMove_of_step hstep with
  | session hsys => exact ⟨h.covered.step hsys, linked_step h.linked hsys⟩
  | onMessage channel msg => exact ⟨h.covered, h.linked⟩
  | pop hpc hq => exact ⟨h.covered, h.linked⟩
  | popNothing hq => exact h
  | snapshot hpc hsym hnodup horder =>
      refine ⟨?_, ?_⟩
      · rw [Publishing.send_system]
        exact h.covered
      · rw [Publishing.send_system]
        exact h.linked
  | nullSymbol hpc hnull =>
      exact ⟨h.covered.update rfl (.inr hnull),
        fun s => (h.linked s).of_sameView (sameView_of_null hnull s)⟩
  | lock hpc =>
      refine ⟨?_, ?_⟩
      · rw [Publishing.lock, Publishing.send_system]
        exact h.covered
      · rw [Publishing.lock, Publishing.send_system]
        exact h.linked

theorem listened_run {cfg : Str} {as : List (PublishAction ω)} {p : Publishing ω}
    (hrun : Runs.run (publishStep parseJson) (.start cfg) as = some p) : Listened cfg p :=
  Runs.run_inv (G := fun _ => True) (fun h _ hstep => Listened.step h hstep)
    (listened_start cfg) (fun _ _ => trivial) hrun

/-- The raw pointers a snapshot goes through are of sessions that are there. -/
theorem Listened.alive {cfg : Str} {q : Publishing ω} {a : PublishAction ω} {t : Turn ω}
    (h : Listened cfg q) (hsnapshot : t.SnapshotIn q a) :
    ∀ wp ∈ t.members, q.system.pc wp.address ≠ .absent := by
  intro wp hwp habsent
  rw [hsnapshot.2.2, Finset.mem_image] at hwp
  obtain ⟨s, hs, rfl⟩ := hwp
  have hlinked := h.linked s
  rw [show q.system.pc s = .absent from habsent] at hlinked
  exact hlinked.not_mem_of_absent t.topic hs

/-- The snapshot of a configured topic can be taken, and meets no null pointer. -/
theorem Listened.snapshot {cfg : Str} {p : Publishing ω} (h : Listened cfg p)
    {topic message : Str} (hpc : p.pc = .popped topic message) (htopic : topic ∈ split cfg)
    (hfault : p.system.fault = false) {order : List ω} (hnodup : order.Nodup)
    (horder : order.toFinset = p.system.shared.sessionsOf topic) :
    ∃ p', publishStep parseJson p (.snapshot order) = some p' ∧ p'.system.fault = false := by
  obtain ⟨sym, hsym⟩ := h.covered topic htopic
  rw [SharedState.sessionsOf_of_symbol hsym] at horder
  refine ⟨p.send ⟨topic, message, sym.sessions.image p.weakFromThis, []⟩
    (order.map p.weakFromThis), ?_, ?_⟩
  · simp only [publishStep, hfault, hpc, Publishing.snapshot_eq hsym, hnodup, horder, and_self,
      Bool.false_eq_true, if_true, if_false]
  · rw [Publishing.send_system]
    exact hfault

/-- What has been sent to a session is messages of turns whose snapshot had it. -/
theorem Delivers.subscribed {p : Publishing ω} (h : Delivers p)
    (hmembers : ∀ t ∈ p.turns, ∀ wp ∈ t.locked, wp ∈ t.members) (wp : WeakPtr ω) :
    List.Sublist (p.sent wp) ((p.turns.filter (fun t => wp ∈ t.members)).map Turn.message) := by
  rw [h.sent wp, messagesFor]
  refine List.Sublist.map Turn.message ?_
  have hsub : p.turns.filter (fun t => (wp, true) ∈ t.locks) =
      (p.turns.filter (fun t => wp ∈ t.members)).filter (fun t => (wp, true) ∈ t.locks) := by
    rw [List.filter_filter]
    refine List.filter_congr ?_
    intro t ht
    have himp : (wp, true) ∈ t.locks → wp ∈ t.members := fun hlock =>
      hmembers t ht wp (List.mem_map_of_mem hlock)
    simp only [← Bool.decide_and, decide_eq_decide]
    exact (and_iff_left_of_imp himp).symm
  rw [hsub]
  exact List.filter_sublist

/-- What has been sent to a session is a part of what was popped, in that order. -/
theorem Delivers.sent_sublist {p : Publishing ω} (h : Delivers p) (wp : WeakPtr ω) :
    List.Sublist (p.sent wp) (p.popped.map Prod.snd) := by
  have hmessages : p.popped.map Prod.snd = p.turns.map Turn.message ++ p.inHand.map Prod.snd := by
    rw [h.order, List.map_append, List.map_map]
    rfl
  rw [h.sent wp, hmessages]
  exact (List.filter_sublist.map Turn.message).trans (List.sublist_append_left _ _)

theorem Delivers.covers {p : Publishing ω} (h : Delivers p) {t : Turn ω} (ht : t ∈ p.turns) :
    ∃ rest, t.Covers rest := by
  cases hpc : p.pc with
  | sending turn wp rest =>
      rw [Publishing.turns_of_sending hpc] at ht
      rcases List.mem_append.mp ht with ht | ht
      · exact ⟨[], h.finished t ht⟩
      · rw [List.mem_singleton.mp ht]
        exact ⟨wp :: rest, h.current turn wp rest hpc⟩
  | _ =>
      rw [Publishing.turns, hpc] at ht
      exact ⟨[], h.finished t ht⟩

/-- What a turn's record says of the run: its sessions are those of a symbol
when its message was in hand, none of them gone, and each lock in it is a step
that found the session owned or not, once for each session. -/
structure Turn.Faithful (parseJson : JsonParser) (cfg : Str) (as : List (PublishAction ω))
    (t : Turn ω) : Prop where
  snapshot : Runs.Took (publishStep parseJson) (.start cfg) as
    (fun q a => t.SnapshotIn q a ∧ ∀ wp ∈ t.members, q.system.pc wp.address ≠ .absent)
  lock : ∀ wp b, (wp, b) ∈ t.locks →
    Runs.Took (publishStep parseJson) (.start cfg) as (t.LockIn wp b)
  once : t.locked.Nodup
  members : ∀ wp ∈ t.locked, wp ∈ t.members

theorem faithful_run {cfg : Str} {as : List (PublishAction ω)} {p : Publishing ω}
    (hrun : Runs.run (publishStep parseJson) (.start cfg) as = some p) :
    ∀ t ∈ p.turns, t.Faithful parseJson cfg as := by
  intro t ht
  have hrecord := recorded_run hrun
  obtain ⟨rest, hcovers⟩ := (delivers_run hrun).covers ht
  refine ⟨?_, hrecord.lock t ht, hcovers.nodup.of_append_left, ?_⟩
  · refine (hrecord.snapshot t ht).mono ?_
    intro pre q a hpre hsnapshot
    exact ⟨hsnapshot, (listened_run hpre).alive hsnapshot⟩
  · exact fun wp hwp => (hcovers.mem wp).mp (List.mem_append_left rest hwp)

/-- **In every interleaving: the turns of the loop are the messages popped, in
order, and a message of a configured topic always gets its turn; a turn locks
nobody but the sessions of its snapshot, each at most once, and each of them by
its end; what has been sent to a session is the messages of the turns that
found it owned, which is a part of what was popped, of topics it was subscribed
to at the snapshot.** -/
theorem ticks_delivered {cfg : Str} {as : List (PublishAction ω)} {p : Publishing ω}
    (hrun : Runs.run (publishStep parseJson) (.start cfg) as = some p) :
    p.popped = p.turns.map Turn.entry ++ p.inHand ∧
      (∀ topic message, p.pc = .popped topic message → topic ∈ split cfg →
        p.system.fault = false →
        ∀ order : List ω, order.Nodup → order.toFinset = p.system.shared.sessionsOf topic →
          ∃ p', publishStep parseJson p (.snapshot order) = some p' ∧
            p'.system.fault = false) ∧
      (∀ t ∈ p.turns, t.Faithful parseJson cfg as) ∧
      (∀ t ∈ p.finished, t.locked.toFinset = t.members) ∧
      ∀ wp,
        p.sent wp = (p.turns.filter (fun t => (wp, true) ∈ t.locks)).map Turn.message ∧
        List.Sublist (p.sent wp) (p.popped.map Prod.snd) ∧
        List.Sublist (p.sent wp)
          ((p.turns.filter (fun t => wp ∈ t.members)).map Turn.message) := by
  have hdelivers := delivers_run hrun
  have hfaithful := faithful_run hrun
  refine ⟨hdelivers.order, ?_, hfaithful, ?_, ?_⟩
  · intro topic message hpc htopic hfault order hnodup horder
    exact (listened_run hrun).snapshot hpc htopic hfault hnodup horder
  · intro t ht
    have hcovers := hdelivers.finished t ht
    ext wp
    rw [List.mem_toFinset, ← hcovers.mem wp, List.append_nil]
  · intro wp
    exact ⟨hdelivers.sent wp, hdelivers.sent_sublist wp,
      hdelivers.subscribed (fun t ht => (hfaithful t ht).members) wp⟩

/-- Two sessions listen to a topic when a message of it is popped; the
destructor of the first begins between the snapshot and the locks. -/
def tickToTwoSessions : List (PublishAction Nat) :=
  (twoSessions ++ [Action.advance 1]).map PublishAction.session ++
    [.onMessage "ETH-USD".toList "3,101.5".toList, .pop, .snapshot [0, 1],
      .session (.destroy 0), .lock, .lock]

theorem ticks_delivered_two_sessions :
    ∃ p : Publishing Nat,
      Runs.run (publishStep clientParser) (.start twoTopics) tickToTwoSessions = some p ∧
        p.popped = p.turns.map Turn.entry ++ p.inHand ∧
        (∀ t ∈ p.finished, t.locked.toFinset = t.members) ∧
        p.sent ⟨0, 1⟩ = [] ∧ p.sent ⟨1, 1⟩ = ["3,101.5".toList] := by
  have hrun : Runs.run (publishStep clientParser) (.start twoTopics) tickToTwoSessions = some _ :=
    rfl
  obtain ⟨horder, _, _, hfinished, hsent⟩ := ticks_delivered hrun
  refine ⟨_, hrun, horder, hfinished, ?_, ?_⟩
  · rw [(hsent ⟨0, 1⟩).1]
    decide
  · rw [(hsent ⟨1, 1⟩).1]
    decide

end SravzBackend.Web
