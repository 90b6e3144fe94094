/-
# `Web.SharedState` — who listens to what

`shared_state` holds one `symbol` for every configured topic, and each symbol
the websocket sessions subscribed to it; each session holds the topics it is
subscribed to.  The two halves are kept in step under two different mutexes,
one critical section after the other.  The first session to join a symbol and
the last one to leave it push an event for the subscriber.

The functions here are the critical sections, and the procedures of
`shared_state` as sequences of them.  `symbols_[topic]` inserts a null pointer
for a name that is not there; dereferencing it ends the process, which is the
`error` of the sections that look up a symbol, with the state it happened in.
-/
import Mathlib.Data.Char
import Mathlib.Data.Finset.Card
import Mathlib.Data.List.Lex
import Mathlib.Logic.Function.Basic
import SravzBackend.Json
import SravzBackend.Lib.BoundedQueue
import SravzBackend.Lib.OrdSet

namespace SravzBackend.Web

variable {ω : Type}

/-- `parser::MsgType`; a cast from `int` may give a value without a name. -/
inductive MsgType where
  | subscribe
  | unsubscribe
  | other (n : Int)
deriving DecidableEq

def MsgType.ofInt (n : Int) : MsgType :=
  if n = 1 then .subscribe else if n = 2 then .unsubscribe else .other n

/-! ## `symbol` -/

structure Symbol (ω : Type) where
  code : Str
  sessions : Finset ω

def Symbol.join [DecidableEq ω] (sym : Symbol ω) (s : ω) : Symbol ω :=
  { sym with sessions := insert s sym.sessions }

/-- `symbol::leave`; the answer is the number of sessions removed. -/
def Symbol.leave [DecidableEq ω] (sym : Symbol ω) (s : ω) : Symbol ω × Nat :=
  ({ sym with sessions := sym.sessions.erase s }, if s ∈ sym.sessions then 1 else 0)

/-! ## `shared_state` -/

/-- An event for the subscriber. -/
abbrev SubscriberEvent := MsgType × Str

/-- `symbols t` is `none` for a name without an entry and `some none` for an
entry with a null pointer; `topics s` is `s->topics`.  `lost` lists the events
whose push found the queue full, which the source does not look at. -/
structure SharedState (ω : Type) where
  symbols : Str → Option (Option (Symbol ω))
  sessions : Finset ω
  topics : ω → OrdSet Str
  spscQueueSubscriber : BoundedQueue SubscriberEvent 1024
  lost : List SubscriberEvent

namespace SharedState

/-- Before `init`. -/
def empty : SharedState ω := ⟨fun _ => none, ∅, fun _ => .empty, .empty, []⟩

def setSymbol (st : SharedState ω) (topic : Str) (p : Option (Symbol ω)) : SharedState ω :=
  { st with symbols := Function.update st.symbols topic (some p) }

/-- `shared_state::init` -/
def init (topics : Str) : SharedState ω :=
  (split topics).foldl (fun st topic => st.setSymbol topic (some ⟨topic, ∅⟩)) empty

/-- `symbols_[topic]` -/
def symbolsAt (st : SharedState ω) (topic : Str) : SharedState ω × Option (Symbol ω) :=
  match st.symbols topic with
  | some p => (st, p)
  | none => (st.setSymbol topic none, none)

/-- Where there is no symbol, looking it up leaves a null pointer behind. -/
theorem symbolsAt_of_null {st : SharedState ω} {topic : Str}
    (h : ∀ sym, st.symbols topic ≠ some (some sym)) :
    st.symbolsAt topic = (st.setSymbol topic none, none) := by
  unfold symbolsAt
  split
  · next p hp =>
      cases p with
      | some sym => exact absurd hp (h sym)
      | none =>
          refine Prod.ext ?_ rfl
          show st = { st with symbols := Function.update st.symbols topic (some none) }
          rw [← hp, Function.update_eq_self]
  · rfl

/-- `spsc_queue_subscriber_.push`, its result ignored. -/
def push (st : SharedState ω) (ev : SubscriberEvent) : SharedState ω :=
  let (queue, pushed) := st.spscQueueSubscriber.push ev
  { st with spscQueueSubscriber := queue, lost := if pushed then st.lost else st.lost ++ [ev] }

theorem push_of_room {st : SharedState ω} (h : st.spscQueueSubscriber.items.length < 1024)
    (ev : SubscriberEvent) :
    (st.push ev).spscQueueSubscriber.items = st.spscQueueSubscriber.items ++ [ev] ∧
      (st.push ev).lost = st.lost := by
  obtain ⟨hitems, hpushed⟩ := BoundedQueue.push_of_room h ev
  exact ⟨hitems, by simp [push, hpushed]⟩

theorem push_of_full {st : SharedState ω} (h : ¬ st.spscQueueSubscriber.items.length < 1024)
    (ev : SubscriberEvent) :
    (st.push ev).spscQueueSubscriber = st.spscQueueSubscriber ∧
      (st.push ev).lost = st.lost ++ [ev] := by
  have hfull := BoundedQueue.push_of_full h ev
  exact ⟨by simp [push, hfull], by simp [push, hfull]⟩

/-- The sessions subscribed to a topic, none where there is no symbol. -/
def sessionsOf (st : SharedState ω) (topic : Str) : Finset ω :=
  match st.symbols topic with
  | some (some sym) => sym.sessions
  | _ => ∅

theorem sessionsOf_of_symbol {st : SharedState ω} {topic : Str} {sym : Symbol ω}
    (h : st.symbols topic = some (some sym)) : st.sessionsOf topic = sym.sessions := by
  simp [sessionsOf, h]

theorem sessionsOf_of_null {st : SharedState ω} {topic : Str}
    (h : ∀ sym, st.symbols topic ≠ some (some sym)) : st.sessionsOf topic = ∅ := by
  unfold sessionsOf
  split
  · next sym hsym => exact absurd hsym (h sym)
  · rfl

@[simp]
theorem sessionsOf_setSymbol (st : SharedState ω) (topic : Str) (p : Option (Symbol ω)) :
    (st.setSymbol topic p).sessionsOf =
      Function.update st.sessionsOf topic (p.elim ∅ Symbol.sessions) := by
  funext t
  by_cases ht : t = topic
  · subst ht
    cases p <;> simp [sessionsOf, setSymbol]
  · simp [sessionsOf, setSymbol, ht]

theorem sessionsOf_setSymbol_of_null {st : SharedState ω} {topic : Str}
    (h : ∀ sym, st.symbols topic ≠ some (some sym)) :
    (st.setSymbol topic none).sessionsOf = st.sessionsOf := by
  rw [sessionsOf_setSymbol, Option.elim_none, ← sessionsOf_of_null h, Function.update_eq_self]

/-- What the sections that find their symbol come to: it changes, and if the
change is an edge, an event is pushed. -/
def settleSymbol (st : SharedState ω) (topic : Str) (sym : Symbol ω) (edge : Prop)
    [Decidable edge] (type : MsgType) : SharedState ω :=
  (if edge then st.push (type, topic) else st).setSymbol topic (some sym)

section Settle

variable (st : SharedState ω) (topic : Str) (sym : Symbol ω) (edge : Prop) [Decidable edge]
  (type : MsgType)

theorem settleSymbol_symbols : (st.settleSymbol topic sym edge type).symbols =
    Function.update st.symbols topic (some (some sym)) := by
  unfold settleSymbol
  split <;> rfl

@[simp]
theorem settleSymbol_sessions :
    (st.settleSymbol topic sym edge type).sessions = st.sessions := by
  unfold settleSymbol
  split <;> rfl

@[simp]
theorem settleSymbol_topics : (st.settleSymbol topic sym edge type).topics = st.topics := by
  unfold settleSymbol
  split <;> rfl

@[simp]
theorem settleSymbol_sessionsOf : (st.settleSymbol topic sym edge type).sessionsOf =
    Function.update st.sessionsOf topic sym.sessions := by
  unfold settleSymbol
  rw [sessionsOf_setSymbol]
  split <;> rfl

variable {st topic sym edge type}

theorem settleSymbol_queue_of_edge (h : edge) :
    (st.settleSymbol topic sym edge type).spscQueueSubscriber =
      (st.push (type, topic)).spscQueueSubscriber := by
  simp [settleSymbol, setSymbol, h]

theorem settleSymbol_lost_of_edge (h : edge) :
    (st.settleSymbol topic sym edge type).lost = (st.push (type, topic)).lost := by
  simp [settleSymbol, setSymbol, h]

theorem settleSymbol_queue_of_not_edge (h : ¬ edge) :
    (st.settleSymbol topic sym edge type).spscQueueSubscriber = st.spscQueueSubscriber := by
  simp [settleSymbol, setSymbol, h]

theorem settleSymbol_lost_of_not_edge (h : ¬ edge) :
    (st.settleSymbol topic sym edge type).lost = st.lost := by
  simp [settleSymbol, setSymbol, h]

end Settle

/-! ### The symbols are the configured ones -/

/-- The keys of `symbols_` are the configured topics, and none is null. -/
structure Intact (cfg : Str) (st : SharedState ω) : Prop where
  configured : ∀ t ∈ split cfg, ∃ sym, st.symbols t = some (some sym)
  others : ∀ t ∉ split cfg, st.symbols t = none

theorem Intact.of_symbols {cfg : Str} {st st' : SharedState ω} (h : st.Intact cfg)
    (heq : st'.symbols = st.symbols) : st'.Intact cfg := by
  refine ⟨?_, ?_⟩
  · rw [heq]
    exact h.configured
  · rw [heq]
    exact h.others

theorem Intact.settleSymbol {cfg : Str} {st : SharedState ω} (h : st.Intact cfg) {topic : Str}
    (htopic : topic ∈ split cfg) (sym : Symbol ω) (edge : Prop) [Decidable edge]
    (type : MsgType) : (st.settleSymbol topic sym edge type).Intact cfg := by
  refine ⟨?_, ?_⟩
  · intro t ht
    rw [settleSymbol_symbols]
    by_cases heq : t = topic
    · subst heq
      exact ⟨sym, Function.update_self ..⟩
    · rw [Function.update_of_ne heq]
      exact h.configured t ht
  · intro t ht
    have heq : t ≠ topic := fun heq => ht (heq ▸ htopic)
    rw [settleSymbol_symbols, Function.update_of_ne heq]
    exact h.others t ht

theorem Intact.no_symbol {cfg : Str} {st : SharedState ω} (h : st.Intact cfg) {topic : Str}
    (htopic : topic ∉ split cfg) (sym : Symbol ω) : st.symbols topic ≠ some (some sym) := by
  rw [h.others topic htopic]
  exact Option.some_ne_none _ ∘ Eq.symm

/-- What has a symbol is configured. -/
theorem Intact.mem_of_symbol {cfg : Str} {st : SharedState ω} (h : st.Intact cfg) {topic : Str}
    {sym : Symbol ω} (hsym : st.symbols topic = some (some sym)) : topic ∈ split cfg := by
  by_contra hno
  exact h.no_symbol hno sym hsym

/-- `init` makes a symbol of every configured topic, and nobody listens. -/
theorem init_symbols (cfg t : Str) :
    (init cfg : SharedState ω).symbols t =
      if t ∈ split cfg then some (some ⟨t, ∅⟩) else none := by
  suffices h : ∀ (topics : List Str) (st : SharedState ω),
      (topics.foldl (fun st topic => st.setSymbol topic (some ⟨topic, ∅⟩)) st).symbols t =
        if t ∈ topics then some (some ⟨t, ∅⟩) else st.symbols t from h (split cfg) empty
  intro topics
  induction topics with
  | nil => intro st; rfl
  | cons topic topics ih =>
      intro st
      rw [List.foldl_cons, ih]
      by_cases ht : t ∈ topics
      · simp [ht]
      · by_cases heq : t = topic
        · subst heq
          simp [ht, setSymbol]
        · simp [ht, heq, setSymbol]

theorem init_intact (cfg : Str) : (init cfg : SharedState ω).Intact cfg := by
  refine ⟨?_, ?_⟩
  · intro t ht
    exact ⟨⟨t, ∅⟩, by rw [init_symbols, if_pos ht]⟩
  · intro t ht
    rw [init_symbols, if_neg ht]

/-- Besides the symbols `init` touches nothing. -/
theorem init_eq (cfg : Str) :
    (init cfg : SharedState ω) = { empty with symbols := (init cfg).symbols } := by
  suffices h : ∀ (topics : List Str) (st : SharedState ω),
      topics.foldl (fun st topic => st.setSymbol topic (some ⟨topic, ∅⟩)) st =
        { st with
          symbols := (topics.foldl
            (fun st topic => st.setSymbol topic (some ⟨topic, ∅⟩)) st).symbols }
    from h (split cfg) empty
  intro topics
  induction topics with
  | nil => intro st; rfl
  | cons topic topics ih =>
      intro st
      rw [List.foldl_cons, ih]
      rfl

@[simp]
theorem init_sessionsOf (cfg t : Str) : (init cfg : SharedState ω).sessionsOf t = ∅ := by
  by_cases ht : t ∈ split cfg <;> simp [sessionsOf, init_symbols, ht]

/-- A section of a loop over topics: it keeps the symbols intact on a
configured topic, and dereferences a null pointer on any other. -/
def LooksUp (cfg : Str) (f : SharedState ω → Str → Except (SharedState ω) (SharedState ω)) :
    Prop :=
  ∀ st topic, st.Intact cfg →
    (topic ∈ split cfg → ∃ st', f st topic = .ok st' ∧ st'.Intact cfg) ∧
      (topic ∉ split cfg → ∃ e, f st topic = .error e)

/-- A loop of such sections gets through, with the symbols intact, exactly
when all its topics are configured. -/
theorem LooksUp.loop_iff {cfg : Str}
    {f : SharedState ω → Str → Except (SharedState ω) (SharedState ω)} (hf : LooksUp cfg f)
    (topics : List Str) : ∀ {st : SharedState ω}, st.Intact cfg →
      ((∃ st', topics.foldlM f st = .ok st' ∧ st'.Intact cfg) ↔ ∀ t ∈ topics, t ∈ split cfg) := by
  induction topics with
  | nil =>
      intro st h
      exact ⟨fun _ _ ht => absurd ht List.not_mem_nil, fun _ => ⟨st, rfl, h⟩⟩
  | cons topic topics ih =>
      intro st h
      obtain ⟨hin, hout⟩ := hf st topic h
      rw [List.foldlM_cons, List.forall_mem_cons]
      by_cases htopic : topic ∈ split cfg
      · obtain ⟨st₁, h₁, hintact⟩ := hin htopic
        rw [h₁, and_iff_right htopic]
        exact ih hintact
      · obtain ⟨e, he⟩ := hout htopic
        rw [he]
        constructor
        · rintro ⟨st', hst', _⟩
          cases hst'
        · intro hall
          exact absurd hall.1 htopic

/-! ### The critical sections -/

variable [DecidableEq ω]

/-- `shared_state::join` -/
def join (st : SharedState ω) (s : ω) : SharedState ω :=
  { st with sessions := insert s st.sessions }

def setTopics (st : SharedState ω) (s : ω) (topics : OrdSet Str) : SharedState ω :=
  { st with topics := Function.update st.topics s topics }

@[simp]
theorem setTopics_self (st : SharedState ω) (s : ω) (topics : OrdSet Str) :
    (st.setTopics s topics).topics s = topics := by
  simp [setTopics]

theorem setTopics_of_ne (st : SharedState ω) {s s' : ω} (h : s' ≠ s) (topics : OrdSet Str) :
    (st.setTopics s topics).topics s' = st.topics s' := by
  simp [setTopics, h]

def insertTopic (st : SharedState ω) (s : ω) (topic : Str) : SharedState ω :=
  st.setTopics s ((st.topics s).insert topic)

def eraseTopic (st : SharedState ω) (s : ω) (topic : Str) : SharedState ω :=
  st.setTopics s ((st.topics s).erase topic)

def eraseSession (st : SharedState ω) (s : ω) : SharedState ω :=
  { st with sessions := st.sessions.erase s }

/-- The section of `websocket_subscribe_to_symbols` under the symbol's mutex. -/
def joinSymbol (st : SharedState ω) (s : ω) (topic : Str) :
    Except (SharedState ω) (SharedState ω) :=
  match st.symbolsAt topic with
  | (st, none) => .error st
  | (st, some sym) =>
      let st := if sym.sessions.card = 0 then st.push (.subscribe, topic) else st
      .ok (st.setSymbol topic (some (sym.join s)))

/-- The section of `websocket_unsubscribe_to_symbols` under the symbol's
mutex. -/
def leaveSymbol (st : SharedState ω) (s : ω) (topic : Str) :
    Except (SharedState ω) (SharedState ω) :=
  match st.symbolsAt topic with
  | (st, none) => .error st
  | (st, some sym) =>
      let (sym, left) := sym.leave s
      let st := st.setSymbol topic (some sym)
      if left ≠ 0 then
        if sym.sessions.card = 0 then .ok (st.push (.unsubscribe, topic)) else .ok st
      else .ok st

/-! ### The procedures -/

/-- The body of the loop of `websocket_subscribe_to_symbols`. -/
def subscribeTopic (s : ω) (st : SharedState ω) (topic : Str) :
    Except (SharedState ω) (SharedState ω) :=
  (st.insertTopic s topic).joinSymbol s topic

def websocketSubscribeToSymbols (st : SharedState ω) (s : ω) (topics : List Str) :
    Except (SharedState ω) (SharedState ω) :=
  topics.foldlM (subscribeTopic s) st

/-- The body of the loop of `websocket_unsubscribe_to_symbols`. -/
def unsubscribeTopic (s : ω) (st : SharedState ω) (topic : Str) :
    Except (SharedState ω) (SharedState ω) :=
  (st.eraseTopic s topic).leaveSymbol s topic

def websocketUnsubscribeToSymbols (st : SharedState ω) (s : ω) (topics : List Str) :
    Except (SharedState ω) (SharedState ω) :=
  topics.foldlM (unsubscribeTopic s) st

/-- `shared_state::leave`; the loop runs over a copy of `session->topics`. -/
def leave (st : SharedState ω) (s : ω) : Except (SharedState ω) (SharedState ω) := do
  let st ← st.websocketUnsubscribeToSymbols s (st.topics s).toList
  return st.eraseSession s

end SharedState

/-! ## `shared_state::parse` -/

/-- What a client asks for. -/
inductive Request where
  | subscribe (topics : List Str)
  | unsubscribe (topics : List Str)
  | unsupported

variable [DecidableEq ω] (parseJson : JsonParser)

/-- The steps of `parse` that may throw. -/
def request (msg : Str) : Except JsonError Request := do
  let val ← parseJson msg
  let obj ← val.asObject
  let ty ← objectAt obj "ty".toList
  match MsgType.ofInt (← ty.toInt) with
  | .subscribe => return .subscribe (split (← (← objectAt obj "to".toList).toStr))
  | .unsubscribe => return .unsubscribe (split (← (← objectAt obj "to".toList).toStr))
  | .other _ => return .unsupported

/-- `shared_state::parse`; what was thrown is caught and printed. -/
def SharedState.parse (st : SharedState ω) (msg : Str) (s : ω) :
    Except (SharedState ω) (SharedState ω) :=
  match request parseJson msg with
  | .ok (.subscribe topics) => st.websocketSubscribeToSymbols s topics
  | .ok (.unsubscribe topics) => st.websocketUnsubscribeToSymbols s topics
  | .ok .unsupported => .ok st
  | .error _ => .ok st

/-- The topics a message names. -/
def namedTopics (msg : Str) : List Str :=
  match request parseJson msg with
  | .ok (.subscribe topics) => topics
  | .ok (.unsubscribe topics) => topics
  | .ok .unsupported => []
  | .error _ => []

/-! ## What the sections do -/

namespace SharedState

variable (st : SharedState ω) (s : ω) (topic : Str)

/-- With a symbol there, joining it is an edge if the session is the first. -/
theorem joinSymbol_eq {sym : Symbol ω} (h : st.symbols topic = some (some sym)) :
    st.joinSymbol s topic =
      .ok (st.settleSymbol topic (sym.join s) (st.sessionsOf topic = ∅) .subscribe) := by
  simp [joinSymbol, symbolsAt, settleSymbol, h, sessionsOf_of_symbol h]

/-- With a symbol there, leaving it is an edge if the session is the only one. -/
theorem leaveSymbol_eq {sym : Symbol ω} (h : st.symbols topic = some (some sym)) :
    st.leaveSymbol s topic =
      .ok (st.settleSymbol topic (sym.leave s).1 (st.sessionsOf topic = {s}) .unsubscribe) := by
  rw [sessionsOf_of_symbol h]
  simp only [leaveSymbol, symbolsAt, h, Symbol.leave, settleSymbol, Finset.card_eq_zero,
    Finset.erase_eq_empty_iff]
  by_cases hs : s ∈ sym.sessions
  · have hne : sym.sessions ≠ ∅ := Finset.ne_empty_of_mem hs
    by_cases hone : sym.sessions = {s}
    · simp [hone, setSymbol, push]
    · simp [hs, hne, hone]
  · have hone : sym.sessions ≠ {s} := fun h => hs (by simp [h])
    simp [hs, hone]

theorem joinSymbol_null (h : ∀ sym, st.symbols topic ≠ some (some sym)) :
    st.joinSymbol s topic = .error (st.setSymbol topic none) := by
  rw [joinSymbol, symbolsAt_of_null h]

theorem leaveSymbol_null (h : ∀ sym, st.symbols topic ≠ some (some sym)) :
    st.leaveSymbol s topic = .error (st.setSymbol topic none) := by
  rw [leaveSymbol, symbolsAt_of_null h]

/-! ### No null symbol from configured topics -/

theorem looksUp_subscribeTopic (cfg : Str) (s : ω) : LooksUp cfg (subscribeTopic s) := by
  intro st topic h
  have h' : (st.insertTopic s topic).Intact cfg := h.of_symbols rfl
  constructor
  · intro htopic
    obtain ⟨sym, hsym⟩ := h'.configured topic htopic
    exact ⟨_, joinSymbol_eq _ s topic hsym, h'.settleSymbol htopic _ _ _⟩
  · intro htopic
    exact ⟨_, joinSymbol_null _ s topic (h'.no_symbol htopic)⟩

theorem looksUp_unsubscribeTopic (cfg : Str) (s : ω) : LooksUp cfg (unsubscribeTopic s) := by
  intro st topic h
  have h' : (st.eraseTopic s topic).Intact cfg := h.of_symbols rfl
  constructor
  · intro htopic
    obtain ⟨sym, hsym⟩ := h'.configured topic htopic
    exact ⟨_, leaveSymbol_eq _ s topic hsym, h'.settleSymbol htopic _ _ _⟩
  · intro htopic
    exact ⟨_, leaveSymbol_null _ s topic (h'.no_symbol htopic)⟩

/-- What a client sends leaves the symbols intact, and meets no null pointer,
exactly when every topic it names is configured. -/
theorem Intact.parse_iff {parseJson : JsonParser} {cfg : Str} {st : SharedState ω}
    (h : st.Intact cfg) (msg : Str) (s : ω) :
    (∃ st', st.parse parseJson msg s = .ok st' ∧ st'.Intact cfg) ↔
      ∀ t ∈ namedTopics parseJson msg, t ∈ split cfg := by
  unfold SharedState.parse namedTopics
  cases request parseJson msg with
  | error e => exact ⟨fun _ _ ht => absurd ht List.not_mem_nil, fun _ => ⟨st, rfl, h⟩⟩
  | ok req =>
      cases req with
      | subscribe topics => exact (looksUp_subscribeTopic cfg s).loop_iff topics h
      | unsubscribe topics => exact (looksUp_unsubscribeTopic cfg s).loop_iff topics h
      | unsupported => exact ⟨fun _ _ ht => absurd ht List.not_mem_nil, fun _ => ⟨st, rfl, h⟩⟩

end SharedState

end SravzBackend.Web
