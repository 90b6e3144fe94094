/-
# `Web.Feed` — from Redis to the publisher

The loop of `subscriber::subscribe` lets `sub` consume what Redis has sent, as
long as it is subscribed to anything, and pops an event of the sessions.  What
it consumes it pushes for the publisher, which looks the symbol of the channel
up without asking whether there is one.

`feed_finds_symbols`: in every interleaving of the sessions, the subscriber and
the publisher there is one, because a topic is only subscribed to after a
session has joined its symbol.  The publisher therefore never dereferences a
null pointer; a session may, where its client names a topic that is not
configured.
-/
import SravzBackend.Web.EventStream
import SravzBackend.Web.Publisher

namespace SravzBackend.Web

variable {ω : Type}

/-! ## The loop of the subscriber -/

/-- About to look at the counter and consume, or about to pop an event. -/
inductive SubscriberPc where
  | consuming
  | popping
deriving DecidableEq

/-- `asked` are the topics `sub` has been subscribed to at any time: a message
may still be on its way after `unsubscribe`. -/
structure Feed (ω : Type) where
  publishing : Publishing ω
  pc : SubscriberPc
  asked : Finset Str

def Feed.start (cfg : Str) : Feed ω := ⟨.start cfg, .consuming, ∅⟩

/-- `consume` receives a message, or something else, or throws; with the
counter at zero it is not called.  That `subscribe` and `unsubscribe` of `sub`
throw, which nothing would catch, is left out. -/
inductive FeedAction (ω : Type) where
  | session (a : Action ω)
  | consumeMessage (channel msg : Str)
  | consumeNothing
  | skip
  | popEvent
  | pop
  | snapshot (order : List ω)
  | lock

/-- `if (topics_subscribed_count)` -/
def Feed.counts (f : Feed ω) : Bool :=
  f.publishing.system.subscriber.topicsSubscribedCount != 0

/-- When the action can be taken, as far as the subscriber has a say.  Redis
delivers only on channels that have been subscribed to. -/
def FeedAction.Ready (f : Feed ω) : FeedAction ω → Prop
  | .session a => popped a = 0
  | .consumeMessage channel _ => f.pc = .consuming ∧ f.counts = true ∧ channel ∈ f.asked
  | .consumeNothing => f.pc = .consuming ∧ f.counts = true
  | .skip => f.pc = .consuming ∧ f.counts = false
  | .popEvent => f.pc = .popping
  | .pop => True
  | .snapshot _ => True
  | .lock => True

instance (f : Feed ω) (a : FeedAction ω) : Decidable (a.Ready f) := by
  cases a <;> unfold FeedAction.Ready <;> infer_instance

/-- What it is for the sessions and the publisher. -/
def FeedAction.publish : FeedAction ω → Option (PublishAction ω)
  | .session a => some (.session a)
  | .consumeMessage channel msg => some (.onMessage channel msg)
  | .consumeNothing => none
  | .skip => none
  | .popEvent => some (.session .pop)
  | .pop => some .pop
  | .snapshot order => some (.snapshot order)
  | .lock => some .lock

/-- Where the loop goes. -/
def FeedAction.after (pc : SubscriberPc) : FeedAction ω → SubscriberPc
  | .consumeMessage _ _ => .popping
  | .consumeNothing => .popping
  | .skip => .popping
  | .popEvent => .consuming
  | _ => pc

section Steps

variable [DecidableEq ω] (parseJson : JsonParser)

def feedStep (f : Feed ω) (a : FeedAction ω) : Option (Feed ω) :=
  if a.Ready f then
    match a.publish with
    | some b =>
        match publishStep parseJson f.publishing b with
        | some p => some ⟨p, a.after f.pc, f.asked ∪ p.system.subscriber.subscribed⟩
        | none => none
    | none => if f.publishing.system.fault then none else some { f with pc := a.after f.pc }
  else none

/-- A step is one of the sessions and the publisher, or theirs not at all. -/
inductive FeedMove (f : Feed ω) (a : FeedAction ω) : Feed ω → Prop where
  | publish {b p} (hready : a.Ready f) (hb : a.publish = some b)
      (h : publishStep parseJson f.publishing b = some p) :
      FeedMove f a ⟨p, a.after f.pc, f.asked ∪ p.system.subscriber.subscribed⟩
  | silent (hready : a.Ready f) (hb : a.publish = none)
      (hfault : f.publishing.system.fault = false) :
      FeedMove f a { f with pc := a.after f.pc }

variable {parseJson}

theorem feedMove_of_step {f f' : Feed ω} {a : FeedAction ω}
    (h : feedStep parseJson f a = some f') : FeedMove parseJson f a f' := by
  unfold feedStep at h
  split at h
  · next hready =>
      split at h
      · next b hb =>
          split at h
          · next p hp =>
              cases h
              exact .publish hready hb hp
          · cases h
      · next hb =>
          split at h
          · cases h
          · next hfault =>
              cases h
              exact .silent hready hb (Bool.eq_false_iff.mpr hfault)
  · cases h

/-! ## Every topic is configured -/

/-- The events and the subscriptions are of configured topics. -/
structure Subscribing (cfg : Str) (sys : System ω) : Prop where
  symbols : SymbolsConfigured cfg sys
  events : ∀ ev ∈ sys.shared.spscQueueSubscriber.items, ev.2 ∈ split cfg
  subscribed : ∀ t ∈ sys.subscriber.subscribed, t ∈ split cfg

omit [DecidableEq ω] in
theorem subscribing_start (cfg : Str) : Subscribing cfg (.start cfg : System ω) := by
  refine ⟨symbolsConfigured_start cfg, ?_, fun t ht => absurd ht (Finset.notMem_empty t)⟩
  intro ev hev
  change ev ∈ (SharedState.init cfg : SharedState ω).spscQueueSubscriber.items at hev
  rw [SharedState.init_eq] at hev
  exact absurd hev List.not_mem_nil

omit [DecidableEq ω] in
/-- A section of a symbol pushes an event of its topic, or none. -/
theorem mem_settleSymbol {st : SharedState ω} {topic : Str} {sym : Symbol ω} {edge : Prop}
    [Decidable edge] {type : MsgType} {ev : SubscriberEvent}
    (h : ev ∈ (st.settleSymbol topic sym edge type).spscQueueSubscriber.items) :
    ev ∈ st.spscQueueSubscriber.items ∨ ev.2 = topic := by
  by_cases hedge : edge
  · rw [SharedState.settleSymbol_queue_of_edge hedge] at h
    rcases BoundedQueue.mem_of_mem_push h with hmem | rfl
    · exact .inl hmem
    · exact .inr rfl
  · rw [SharedState.settleSymbol_queue_of_not_edge hedge] at h
    exact .inl h

theorem mem_handle {sub : Subscriber} {ev : SubscriberEvent} {t : Str}
    (h : t ∈ (sub.handle ev).subscribed) : t ∈ sub.subscribed ∨ t = ev.2 := by
  obtain ⟨type, topic⟩ := ev
  cases type with
  | subscribe => exact (Finset.mem_insert.mp h).symm
  | unsubscribe => exact .inl (Finset.mem_of_mem_erase h)
  | other n => exact .inl h

omit [DecidableEq ω] in
theorem Subscribing.settle {cfg : Str} {sys : System ω} (h : Subscribing cfg sys) {topic : Str}
    {sym sym' : Symbol ω} (hsym : sys.shared.symbols topic = some (some sym)) {edge : Prop}
    [Decidable edge] {type : MsgType} :
    ∀ ev ∈ (sys.shared.settleSymbol topic sym' edge type).spscQueueSubscriber.items,
      ev.2 ∈ split cfg := by
  intro ev hev
  rcases mem_settleSymbol hev with hmem | htopic
  · exact h.events ev hmem
  · rw [htopic]
    exact h.symbols topic sym hsym

theorem Subscribing.step {cfg : Str} {sys sys' : System ω} {a : Action ω}
    (h : Subscribing cfg sys) (hstep : step parseJson sys a = some sys') :
    Subscribing cfg sys' := by
  have hsymbols := h.symbols.step hstep
  cases (move_of_step hstep).2 with
  | joinSymbol hpc hsym => exact ⟨hsymbols, h.settle hsym, h.subscribed⟩
  | leaveSymbol hpc hsym => exact ⟨hsymbols, h.settle hsym, h.subscribed⟩
  | pop hpop =>
      have hitems := BoundedQueue.pop_eq_some.mp hpop
      refine ⟨hsymbols, ?_, ?_⟩
      · intro ev hev
        refine h.events ev ?_
        rw [hitems]
        exact List.mem_cons_of_mem _ hev
      · intro t ht
        rcases mem_handle ht with hmem | rfl
        · exact h.subscribed t hmem
        · refine h.events _ ?_
          rw [hitems]
          exact List.mem_cons_self
  | _ => exact ⟨hsymbols, h.events, h.subscribed⟩

omit [DecidableEq ω] in
theorem send_spscQueue (p : Publishing ω) (turn : Turn ω) (rest : List (WeakPtr ω)) :
    (p.send turn rest).spscQueue = p.spscQueue := by
  cases rest <;> rfl

/-- What is queued for the publisher, and what it has popped, is of configured
topics; and it has left the sessions to themselves. -/
structure Fed (parseJson : JsonParser) (cfg : Str) (p : Publishing ω) : Prop where
  reached : ∃ as, Runs.run (step parseJson) (.start cfg) as = some p.system
  covered : p.system.shared.Covered cfg
  subscribing : Subscribing cfg p.system
  queued : ∀ entry ∈ p.spscQueue.items, entry.1 ∈ split cfg
  popped : ∀ entry ∈ p.popped, entry.1 ∈ split cfg
  inHand : ∀ entry ∈ p.inHand, entry.1 ∈ split cfg

theorem fed_start (cfg : Str) : Fed parseJson cfg (.start cfg : Publishing ω) where
  reached := ⟨[], rfl⟩
  covered := (SharedState.init_intact cfg).configured
  subscribing := subscribing_start cfg
  queued _ h := absurd h List.not_mem_nil
  popped _ h := absurd h List.not_mem_nil
  inHand _ h := absurd h List.not_mem_nil

/-- The loop over the weak pointers goes on. -/
theorem Fed.send {cfg : Str} {p : Publishing ω} (h : Fed parseJson cfg p) (turn : Turn ω)
    (rest : List (WeakPtr ω)) : Fed parseJson cfg (p.send turn rest) := by
  refine ⟨?_, ?_, ?_, ?_, ?_, ?_⟩
  · rw [Publishing.send_system]
    exact h.reached
  · rw [Publishing.send_system]
    exact h.covered
  · rw [Publishing.send_system]
    exact h.subscribing
  · rw [send_spscQueue]
    exact h.queued
  · rw [Publishing.send_popped]
    exact h.popped
  · rw [Publishing.send_inHand]
    exact fun _ hnone => absurd hnone List.not_mem_nil

/-- The topic in hand has a symbol. -/
theorem Fed.symbol {cfg : Str} {p : Publishing ω} (h : Fed parseJson cfg p) {topic message : Str}
    (hpc : p.pc = .popped topic message) : ∃ sym, p.system.shared.symbols topic = some (some sym) := by
  refine h.covered topic (h.inHand (topic, message) ?_)
  rw [Publishing.inHand_of_popped hpc]
  exact List.mem_singleton_self _

theorem Fed.step {cfg : Str} {p p' : Publishing ω} {b : PublishAction ω}
    (h : Fed parseJson cfg p)
    (hmessage : ∀ channel msg, b = .onMessage channel msg → channel ∈ split cfg)
    (hstep : publishStep parseJson p b = some p') : Fed parseJson cfg p' := by
  cases publishMove_of_step hstep with
  | @session a sys hsys =>
      obtain ⟨as, hrun⟩ := h.reached
      exact ⟨⟨as ++ [a], Runs.run_concat_eq_some.mpr ⟨_, hrun, hsys⟩⟩, h.covered.step hsys,
        h.subscribing.step hsys, h.queued, h.popped, h.inHand⟩
  | onMessage channel msg =>
      refine ⟨h.reached, h.covered, h.subscribing, ?_, h.popped, h.inHand⟩
      intro entry hentry
      rcases BoundedQueue.mem_of_mem_push hentry with hmem | rfl
      · exact h.queued entry hmem
      · exact hmessage channel msg rfl
  | @pop entry queue hpc hq =>
      have hitems := BoundedQueue.pop_eq_some.mp hq
      have hentry : entry.1 ∈ split cfg := by
        refine h.queued entry ?_
        rw [hitems]
        exact List.mem_cons_self
      refine ⟨h.reached, h.covered, h.subscribing, ?_, ?_, ?_⟩
      · intro e he
        refine h.queued e ?_
        rw [hitems]
        exact List.mem_cons_of_mem _ he
      · intro e he
        rcases List.mem_append.mp he with hmem | hmem
        · exact h.popped e hmem
        · cases List.mem_singleton.mp hmem
          exact hentry
      · intro e he
        cases List.mem_singleton.mp he
        exact hentry
  | popNothing hq => exact h
  | snapshot hpc hsym hnodup horder => exact h.send _ _
  | nullSymbol hpc hnull =>
      obtain ⟨sym, hsym⟩ := h.symbol hpc
      exact absurd hsym (hnull sym)
  | @lock turn wp rest hpc =>
      have hsent : ∀ sent, Fed parseJson cfg { p with sent := sent } := fun _ =>
        ⟨h.reached, h.covered, h.subscribing, h.queued, h.popped, h.inHand⟩
      exact (hsent _).send _ _

/-! ## The whole feed -/

/-- What the subscriber has asked for is configured. -/
structure Feed.Configured (parseJson : JsonParser) (cfg : Str) (f : Feed ω) : Prop where
  reached : ∃ bs, Runs.run (publishStep parseJson) (.start cfg) bs = some f.publishing
  fed : Fed parseJson cfg f.publishing
  asked : ∀ t ∈ f.asked, t ∈ split cfg

theorem Feed.Configured.step {cfg : Str} {f f' : Feed ω} {a : FeedAction ω}
    (h : f.Configured parseJson cfg) (hstep : feedStep parseJson f a = some f') :
    f'.Configured parseJson cfg := by
  cases feedMove_of_step hstep with
  | @publish b p hready hb hp =>
      obtain ⟨bs, hrun⟩ := h.reached
      have hmessage : ∀ channel msg, b = .onMessage channel msg → channel ∈ split cfg := by
        rintro channel msg rfl
        cases a with
        | consumeMessage channel' msg' =>
            cases hb
            exact h.asked channel hready.2.2
        | _ => cases hb
      have hfed := h.fed.step hmessage hp
      refine ⟨⟨bs ++ [b], Runs.run_concat_eq_some.mpr ⟨_, hrun, hp⟩⟩, hfed, ?_⟩
      intro t ht
      rcases Finset.mem_union.mp ht with hasked | hsubscribed
      · exact h.asked t hasked
      · exact hfed.subscribing.subscribed t hsubscribed
  | silent hready hb hfault => exact ⟨h.reached, h.fed, h.asked⟩

theorem configured_run {cfg : Str} {as : List (FeedAction ω)} {f : Feed ω}
    (hrun : Runs.run (feedStep parseJson) (.start cfg) as = some f) :
    f.Configured parseJson cfg :=
  Runs.run_preserves Feed.Configured.step
    ⟨⟨[], rfl⟩, fed_start cfg, fun t ht => absurd ht (Finset.notMem_empty t)⟩ hrun

theorem not_fault_of_publishStep {p p' : Publishing ω} {b : PublishAction ω}
    (h : publishStep parseJson p b = some p') : p.system.fault = false := by
  unfold publishStep at h
  split at h
  · cases h
  · next hfault => exact Bool.eq_false_iff.mpr hfault

/-- A session that faults has looked up a topic that is not configured. -/
theorem fault_of_step {cfg : Str} {sys sys' : System ω} {a : Action ω}
    (hcovered : sys.shared.Covered cfg) (hstep : step parseJson sys a = some sys')
    (hfault : sys'.fault = true) :
    ∃ s topic, a = .advance s ∧ (sys.pc s).pending = some topic ∧ topic ∉ split cfg := by
  obtain ⟨hbefore, hmove⟩ := move_of_step hstep
  cases hmove with
  | @nullSymbol s topic hpending hnull =>
      refine ⟨s, topic, rfl, hpending, fun htopic => ?_⟩
      obtain ⟨sym, hsym⟩ := hcovered topic htopic
      exact hnull sym hsym
  | _ => exact absurd hfault (Bool.eq_false_iff.mp hbefore)

/-- **In every interleaving of the sessions, the subscriber and the publisher:
what the publisher is given and what it has popped is of topics with a symbol;
the only step that dereferences a null pointer is that of a session whose
client has named a topic that is not configured; the publisher and the sessions
run as they do with any messages; and as long as no event is lost, the
subscriber consumes exactly while it is subscribed to something.** -/
theorem feed_finds_symbols {cfg : Str} {as : List (FeedAction ω)} {f : Feed ω}
    (hrun : Runs.run (feedStep parseJson) (.start cfg) as = some f) :
    (∀ entry, entry ∈ f.publishing.spscQueue.items ∨ entry ∈ f.publishing.popped →
        ∃ sym, f.publishing.system.shared.symbols entry.1 = some (some sym)) ∧
      (∀ a g, feedStep parseJson f a = some g → g.publishing.system.fault = true →
        ∃ s topic, a = .session (.advance s) ∧
          (f.publishing.system.pc s).pending = some topic ∧ topic ∉ split cfg) ∧
      (∃ bs, Runs.run (publishStep parseJson) (.start cfg) bs = some f.publishing) ∧
      (f.publishing.system.shared.lost = [] →
        (f.counts = true ↔ f.publishing.system.subscriber.subscribed.Nonempty)) := by
  have hconfigured := configured_run hrun
  have hfed := hconfigured.fed
  refine ⟨?_, ?_, hconfigured.reached, ?_⟩
  · rintro entry (hqueued | hpopped)
    · exact hfed.covered entry.1 (hfed.queued entry hqueued)
    · exact hfed.covered entry.1 (hfed.popped entry hpopped)
  · intro a g hstep hfault
    cases feedMove_of_step hstep with
    | silent hready hb hbefore => exact absurd hfault (Bool.eq_false_iff.mp hbefore)
    | @publish b p hready hb hp =>
        have hbefore := Bool.eq_false_iff.mp (not_fault_of_publishStep hp)
        cases publishMove_of_step hp with
        | session hsys =>
            obtain ⟨s, topic, rfl, hpending, htopic⟩ := fault_of_step hfed.covered hsys hfault
            refine ⟨s, topic, ?_, hpending, htopic⟩
            cases a <;> cases hb
            rfl
        | onMessage channel msg => exact absurd hfault hbefore
        | pop hpc hq => exact absurd hfault hbefore
        | popNothing hq => exact absurd hfault hbefore
        | snapshot hpc hsym hnodup horder =>
            rw [Publishing.send_system] at hfault
            exact absurd hfault hbefore
        | nullSymbol hpc hnull =>
            obtain ⟨sym, hsym⟩ := hfed.symbol hpc
            exact absurd hsym (hnull sym)
        | lock hpc =>
            rw [Publishing.lock, Publishing.send_system] at hfault
            exact absurd hfault hbefore
  · intro hlost
    obtain ⟨cs, hcs⟩ := hfed.reached
    obtain ⟨m, hmatches, hsynced⟩ := matches_run hcs hlost
    rw [Feed.counts, bne_iff_ne, hmatches.count, hsynced.counted, hmatches.replica,
      ← Finset.card_pos]
    omega

end Steps

/-- The first of two sessions subscribes; the subscriber hears of it, and then
consumes a message, which the publisher pops. -/
def messageToSession : List (FeedAction Nat) :=
  [.session (.construct 0), .session (.accept 0), .session (.receive 0 subscribeEth),
    .session (.advance 0), .session (.advance 0), .skip, .popEvent,
    .consumeMessage "ETH-USD".toList "3,101.5".toList, .pop, .snapshot [0], .lock]

theorem feed_finds_symbols_one_session :
    ∃ f : Feed Nat, Runs.run (feedStep clientParser) (.start twoTopics) messageToSession = some f ∧
      f.publishing.popped = [("ETH-USD".toList, "3,101.5".toList)] ∧
      f.publishing.sent ⟨0, 1⟩ = ["3,101.5".toList] ∧
      (∀ entry, entry ∈ f.publishing.spscQueue.items ∨ entry ∈ f.publishing.popped →
        ∃ sym, f.publishing.system.shared.symbols entry.1 = some (some sym)) := by
  have hrun : Runs.run (feedStep clientParser) (.start twoTopics) messageToSession = some _ := rfl
  exact ⟨_, hrun, by decide, by decide, (feed_finds_symbols hrun).1⟩

end SravzBackend.Web
