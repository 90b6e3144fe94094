/-
# `Web.EventStream` — the events between the sessions and the subscriber

The subscriber learns which topics have listeners only from the events that
the first session to join a symbol and the last one to leave it push.  The
sessions and the subscriber together therefore simulate the machine of
`Lib.EdgeLog`, with the topics that have a session as its source, the queue
as its log and the upstream subscriptions as its replica, as long as no push
finds the queue full: `upstream_matches`.

`no_event_lost_iff` says when that is: a run loses no event exactly when in no
stretch of it the topics gain their first or lose their last session more
than 1024 times oftener than the subscriber pops.
-/
import SravzBackend.Lib.Backlog
import SravzBackend.Lib.EdgeLog
import SravzBackend.Web.Sessions

namespace SravzBackend.Web

open EdgeLog (Edge)

variable {ω : Type}

/-! ## What a step does to the events -/

/-- The event that reports an edge. -/
def event : Edge Str → SubscriberEvent
  | .rise topic => (.subscribe, topic)
  | .fall topic => (.unsubscribe, topic)

/-- `S` is the set of the topics that have a session. -/
def SharedState.Active (st : SharedState ω) (S : Finset Str) : Prop :=
  ∀ t, t ∈ S ↔ (st.sessionsOf t).Nonempty

/-- How many events an action asks the queue for. -/
def popped : Action ω → Nat
  | .pop => 1
  | _ => 0

/-- The steps, seen from the queue: an edge is pushed, an event is popped, or
neither. -/
inductive Effect (sys sys' : System ω) (a : Action ω) : Prop where
  | silent (ha : popped a = 0) (hactive : ∀ S, sys.shared.Active S → sys'.shared.Active S)
      (hqueue : sys'.shared.spscQueueSubscriber = sys.shared.spscQueueSubscriber)
      (hlost : sys'.shared.lost = sys.shared.lost) (hsub : sys'.subscriber = sys.subscriber)
  | edge (ha : popped a = 0) (e : Edge Str)
      (hedge : ∀ S, sys.shared.Active S →
        EdgeLog.Enabled S e ∧ sys'.shared.Active (EdgeLog.after S e))
      (hqueue : sys'.shared.spscQueueSubscriber =
        (sys.shared.push (event e)).spscQueueSubscriber)
      (hlost : sys'.shared.lost = (sys.shared.push (event e)).lost)
      (hsub : sys'.subscriber = sys.subscriber)
  | deliver (ha : popped a = 1) (ev : SubscriberEvent)
      (hpop : sys.shared.spscQueueSubscriber.pop = some (ev, sys'.shared.spscQueueSubscriber))
      (hactive : ∀ S, sys.shared.Active S → sys'.shared.Active S)
      (hlost : sys'.shared.lost = sys.shared.lost)
      (hsub : sys'.subscriber = sys.subscriber.handle ev)
  | nothing (ha : popped a = 1)
      (hpop : sys.shared.spscQueueSubscriber.pop = none)
      (heq : sys' = sys)

/-- A step that touches neither the symbols nor the queue. -/
theorem Effect.of_eq {sys sys' : System ω} {a : Action ω} (ha : popped a = 0)
    (hof : sys'.shared.sessionsOf = sys.shared.sessionsOf)
    (hqueue : sys'.shared.spscQueueSubscriber = sys.shared.spscQueueSubscriber)
    (hlost : sys'.shared.lost = sys.shared.lost) (hsub : sys'.subscriber = sys.subscriber) :
    Effect sys sys' a := by
  refine .silent ha ?_ hqueue hlost hsub
  intro S hS t
  rw [hof]
  exact hS t

theorem SharedState.Active.of_update {st st' : SharedState ω} {S S' : Finset Str} {topic : Str}
    {X : Finset ω} (hS : st.Active S)
    (hof : st'.sessionsOf = Function.update st.sessionsOf topic X)
    (htopic : topic ∈ S' ↔ X.Nonempty) (hothers : ∀ t ≠ topic, (t ∈ S' ↔ t ∈ S)) :
    st'.Active S' := by
  intro t
  rw [hof]
  by_cases heq : t = topic
  · subst heq
    rw [Function.update_self]
    exact htopic
  · rw [Function.update_of_ne heq, hothers t heq]
    exact hS t

section Effects

variable [DecidableEq ω] {parseJson : JsonParser}

theorem effect_joinSymbol {sys : System ω} {s : ω} {topic : Str} {rest : List Str}
    {sym : Symbol ω} :
    Effect sys ((sys.setShared (sys.shared.settleSymbol topic (sym.join s)
      (sys.shared.sessionsOf topic = ∅) .subscribe)).goto s (.subscribe rest))
      (.advance s) := by
  have hof := sys.shared.settleSymbol_sessionsOf topic (sym.join s)
    (sys.shared.sessionsOf topic = ∅) .subscribe
  have hjoined : (sym.join s).sessions.Nonempty := Finset.insert_nonempty s sym.sessions
  by_cases hempty : sys.shared.sessionsOf topic = ∅
  · refine .edge rfl (.rise topic) ?_ ?_ ?_ rfl
    · intro S hS
      refine ⟨?_, hS.of_update hof ?_ ?_⟩
      · intro hmem
        obtain ⟨s', hs'⟩ := (hS topic).mp hmem
        rw [hempty] at hs'
        exact absurd hs' (Finset.notMem_empty s')
      · exact iff_of_true (Finset.mem_insert_self topic S) hjoined
      · intro t hne
        exact Finset.mem_insert.trans (or_iff_right hne)
    · exact SharedState.settleSymbol_queue_of_edge hempty
    · exact SharedState.settleSymbol_lost_of_edge hempty
  · refine .silent rfl ?_ ?_ ?_ rfl
    · intro S hS
      refine hS.of_update hof ?_ (fun _ _ => Iff.rfl)
      exact iff_of_true ((hS topic).mpr (Finset.nonempty_iff_ne_empty.mpr hempty)) hjoined
    · exact SharedState.settleSymbol_queue_of_not_edge hempty
    · exact SharedState.settleSymbol_lost_of_not_edge hempty

theorem effect_leaveSymbol {sys : System ω} {s : ω} {leaving : Bool} {topic : Str}
    {rest : List Str} {sym : Symbol ω} (hsym : sys.shared.symbols topic = some (some sym)) :
    Effect sys ((sys.setShared (sys.shared.settleSymbol topic (sym.leave s).1
      (sys.shared.sessionsOf topic = {s}) .unsubscribe)).goto s (.unsubscribe leaving rest))
      (.advance s) := by
  have hof := sys.shared.settleSymbol_sessionsOf topic (sym.leave s).1
    (sys.shared.sessionsOf topic = {s}) .unsubscribe
  have hsessions := SharedState.sessionsOf_of_symbol hsym
  have hleft : (sym.leave s).1.sessions = (sys.shared.sessionsOf topic).erase s := by
    rw [hsessions]
    rfl
  by_cases hone : sys.shared.sessionsOf topic = {s}
  · refine .edge rfl (.fall topic) ?_ ?_ ?_ rfl
    · intro S hS
      refine ⟨?_, hS.of_update hof ?_ ?_⟩
      · refine (hS topic).mpr ?_
        rw [hone]
        exact Finset.singleton_nonempty s
      · rw [hleft, hone, Finset.erase_singleton]
        exact iff_of_false (Finset.notMem_erase topic S) Finset.not_nonempty_empty
      · intro t hne
        exact Finset.mem_erase.trans (and_iff_right hne)
    · exact SharedState.settleSymbol_queue_of_edge hone
    · exact SharedState.settleSymbol_lost_of_edge hone
  · refine .silent rfl ?_ ?_ ?_ rfl
    · intro S hS
      refine hS.of_update hof ?_ (fun _ _ => Iff.rfl)
      rw [hS topic, hleft, Finset.nonempty_iff_ne_empty, Finset.nonempty_iff_ne_empty, ne_eq,
        ne_eq, Finset.erase_eq_empty_iff, not_or, and_iff_left hone]
    · exact SharedState.settleSymbol_queue_of_not_edge hone
    · exact SharedState.settleSymbol_lost_of_not_edge hone

theorem Move.effect {sys sys' : System ω} {a : Action ω} (h : Move parseJson sys a sys') :
    Effect sys sys' a := by
  cases h with
  | construct hpc => exact .of_eq rfl rfl rfl rfl rfl
  | accept hpc => exact .of_eq rfl rfl rfl rfl rfl
  | receive msg hpc => exact .of_eq rfl rfl rfl rfl rfl
  | destroy hpc => exact .of_eq rfl rfl rfl rfl rfl
  | insertTopic hpc => exact .of_eq rfl rfl rfl rfl rfl
  | joinSymbol hpc hsym => exact effect_joinSymbol
  | eraseTopic hpc => exact .of_eq rfl rfl rfl rfl rfl
  | leaveSymbol hpc hsym => exact effect_leaveSymbol hsym
  | nullSymbol hpending hnull =>
      exact .of_eq rfl (SharedState.sessionsOf_setSymbol_of_null hnull) rfl rfl rfl
  | eraseSession hpc => exact .of_eq rfl rfl rfl rfl rfl
  | pop hpop => exact .deliver rfl _ hpop (fun _ hS => hS) rfl rfl
  | popNothing hpop => exact .nothing rfl hpop rfl

end Effects

/-! ## The simulation -/

/-- A state of the system, seen as a machine that replicates the topics that
have a session. -/
structure Matches (sys : System ω) (m : EdgeLog.Machine Str) : Prop where
  source : sys.shared.Active m.source
  log : sys.shared.spscQueueSubscriber.items = m.log.map event
  replica : sys.subscriber.subscribed = m.replica
  count : sys.subscriber.topicsSubscribedCount = m.count

theorem matches_start (cfg : Str) : Matches (.start cfg : System ω) EdgeLog.start := by
  refine ⟨?_, ?_, rfl, rfl⟩
  · intro t
    show t ∈ (∅ : Finset Str) ↔ ((SharedState.init cfg : SharedState ω).sessionsOf t).Nonempty
    rw [SharedState.init_sessionsOf]
    exact iff_of_false (Finset.notMem_empty t) Finset.not_nonempty_empty
  · show (SharedState.init cfg : SharedState ω).spscQueueSubscriber.items = []
    rw [SharedState.init_eq]
    rfl

theorem handle_event (sub : Subscriber) (e : Edge Str) :
    (sub.handle (event e)).subscribed = EdgeLog.after sub.subscribed e ∧
      (sub.handle (event e)).topicsSubscribedCount =
        EdgeLog.recount sub.topicsSubscribedCount e := by
  cases e <;> exact ⟨rfl, rfl⟩

/-- Applying the queued events is replaying the log. -/
theorem foldl_handle_event (es : List (Edge Str)) (sub : Subscriber) :
    ((es.map event).foldl Subscriber.handle sub).subscribed =
      EdgeLog.replay sub.subscribed es := by
  induction es generalizing sub with
  | nil => rfl
  | cons e es ih =>
      rw [List.map_cons, List.foldl_cons, ih, (handle_event sub e).1]
      rfl

/-- A push that loses nothing appends its event. -/
theorem push_of_lost_eq_nil {st : SharedState ω} {ev : SubscriberEvent}
    (h : (st.push ev).lost = []) :
    (st.push ev).spscQueueSubscriber.items = st.spscQueueSubscriber.items ++ [ev] ∧
      st.lost = [] := by
  by_cases hroom : st.spscQueueSubscriber.items.length < 1024
  · obtain ⟨hitems, hlost⟩ := SharedState.push_of_room hroom ev
    exact ⟨hitems, hlost ▸ h⟩
  · rw [(SharedState.push_of_full hroom ev).2] at h
    exact absurd h (List.append_ne_nil_of_right_ne_nil _ (List.cons_ne_nil ev []))

/-- Each step that loses nothing is at most one step of the machine. -/
theorem Matches.simulate {sys sys' : System ω} {a : Action ω} {m : EdgeLog.Machine Str}
    (h : Matches sys m) (heffect : Effect sys sys' a) (hlost' : sys'.shared.lost = []) :
    ∃ moves m', Runs.run EdgeLog.step m moves = some m' ∧ Matches sys' m' := by
  cases heffect with
  | silent ha hactive hqueue hlost hsub =>
      refine ⟨[], m, rfl, hactive _ h.source, ?_, ?_, ?_⟩
      · rw [hqueue]
        exact h.log
      · rw [hsub]
        exact h.replica
      · rw [hsub]
        exact h.count
  | edge ha e hedge hqueue hlost hsub =>
      obtain ⟨henabled, hactive⟩ := hedge m.source h.source
      have hitems := (push_of_lost_eq_nil (hlost ▸ hlost')).1
      refine ⟨[.flip e], { m with source := EdgeLog.after m.source e, log := m.log ++ [e] }, ?_,
        hactive, ?_, ?_, ?_⟩
      · rw [Runs.run_cons_of_step (EdgeLog.step_flip henabled)]
        rfl
      · rw [hqueue, hitems, h.log, List.map_append]
        rfl
      · rw [hsub]
        exact h.replica
      · rw [hsub]
        exact h.count
  | deliver ha ev hpop hactive hlost hsub =>
      have hitems := BoundedQueue.pop_eq_some.mp hpop
      rw [h.log] at hitems
      obtain ⟨e, es, hlog, rfl, hes⟩ := List.map_eq_cons_iff.mp hitems
      obtain ⟨hsubscribed, hcount⟩ := handle_event sys.subscriber e
      refine ⟨[.deliver],
        { m with
          log := es, replica := EdgeLog.after m.replica e, count := EdgeLog.recount m.count e },
        ?_, hactive _ h.source, hes.symm, ?_, ?_⟩
      · rw [Runs.run_cons_of_step (EdgeLog.step_deliver hlog)]
        rfl
      · rw [hsub, hsubscribed, h.replica]
      · rw [hsub, hcount, h.count]
  | nothing ha hpop heq =>
      rw [heq]
      exact ⟨[], m, rfl, h⟩

/-- A loss is not undone. -/
theorem Effect.lost_eq_nil {sys sys' : System ω} {a : Action ω} (h : Effect sys sys' a)
    (hlost' : sys'.shared.lost = []) : sys.shared.lost = [] := by
  cases h with
  | silent ha hactive hqueue hlost hsub => rw [← hlost, hlost']
  | edge ha e hedge hqueue hlost hsub => exact (push_of_lost_eq_nil (hlost ▸ hlost')).2
  | deliver ha ev hpop hactive hlost hsub => rw [← hlost, hlost']
  | nothing ha hpop heq => rw [← heq, hlost']

section Simulation

variable [DecidableEq ω] {parseJson : JsonParser}

theorem simulate_step {sys sys' : System ω} {a : Action ω} {m : EdgeLog.Machine Str}
    (h : sys.shared.lost = [] → Matches sys m) (hstep : step parseJson sys a = some sys') :
    ∃ moves m', Runs.run EdgeLog.step m moves = some m' ∧
      (sys'.shared.lost = [] → Matches sys' m') := by
  have heffect := (move_of_step hstep).2.effect
  by_cases hlost' : sys'.shared.lost = []
  · obtain ⟨moves, m', hrun, hmatches⟩ := (h (heffect.lost_eq_nil hlost')).simulate heffect hlost'
    exact ⟨moves, m', hrun, fun _ => hmatches⟩
  · exact ⟨[], m, rfl, fun h' => absurd h' hlost'⟩

theorem matches_run {cfg : Str} {as : List (Action ω)} {sys : System ω}
    (hrun : Runs.run (step parseJson) (.start cfg) as = some sys)
    (hlost : sys.shared.lost = []) :
    ∃ m, Matches sys m ∧ EdgeLog.Synced m := by
  obtain ⟨moves, m, hmoves, hmatches⟩ := Runs.run_sim
    (R := fun (sys : System ω) m => sys.shared.lost = [] → Matches sys m) (G := fun _ => True)
    (fun h _ hstep => simulate_step h hstep) (fun _ => matches_start cfg) (fun _ _ => trivial)
    hrun
  exact ⟨m, hmatches hlost, EdgeLog.synced_run hmoves⟩

/-- **As long as no push finds the queue full, the events still queued lead
from the upstream subscriptions to the topics that have a session, every event
changes the subscriptions it is applied to, and the counter is their number.** -/
theorem upstream_matches {cfg : Str} {as : List (Action ω)} {sys : System ω}
    (hrun : Runs.run (step parseJson) (.start cfg) as = some sys)
    (hlost : sys.shared.lost = []) :
    (∀ t, t ∈ (sys.shared.spscQueueSubscriber.items.foldl Subscriber.handle
        sys.subscriber).subscribed ↔ (sys.shared.sessionsOf t).Nonempty) ∧
      (∀ topic queue,
        sys.shared.spscQueueSubscriber.pop = some ((.subscribe, topic), queue) →
          topic ∉ sys.subscriber.subscribed) ∧
      (∀ topic queue,
        sys.shared.spscQueueSubscriber.pop = some ((.unsubscribe, topic), queue) →
          topic ∈ sys.subscriber.subscribed) ∧
      sys.subscriber.topicsSubscribedCount = sys.subscriber.subscribed.card := by
  obtain ⟨m, hmatches, hsynced⟩ := matches_run hrun hlost
  have hhead : ∀ ev queue, sys.shared.spscQueueSubscriber.pop = some (ev, queue) →
      ∃ e, event e = ev ∧ EdgeLog.Enabled sys.subscriber.subscribed e := by
    intro ev queue hpop
    have hitems := BoundedQueue.pop_eq_some.mp hpop
    rw [hmatches.log] at hitems
    obtain ⟨e, es, hlog, hev, _⟩ := List.map_eq_cons_iff.mp hitems
    exact ⟨e, hev, hmatches.replica ▸ hsynced.enabled_head hlog⟩
  refine ⟨?_, ?_, ?_, ?_⟩
  · intro t
    rw [hmatches.log, foldl_handle_event, hmatches.replica, hsynced.replays]
    exact hmatches.source t
  · intro topic queue hpop
    obtain ⟨e, hev, henabled⟩ := hhead _ queue hpop
    cases e with
    | rise topic' =>
        cases hev
        exact henabled
    | fall topic' => cases hev
  · intro topic queue hpop
    obtain ⟨e, hev, henabled⟩ := hhead _ queue hpop
    cases e with
    | rise topic' => cases hev
    | fall topic' =>
        cases hev
        exact henabled
  · rw [hmatches.count, hsynced.counted, hmatches.replica]

/-- One session has subscribed and another one is about to be the second. -/
theorem upstream_matches_two_sessions :
    ∃ sys : System Nat,
      Runs.run (step clientParser) (.start twoTopics) twoSessions = some sys ∧
        (∀ t, t ∈ (sys.shared.spscQueueSubscriber.items.foldl Subscriber.handle
            sys.subscriber).subscribed ↔ (sys.shared.sessionsOf t).Nonempty) ∧
        (∀ topic queue,
          sys.shared.spscQueueSubscriber.pop = some ((.subscribe, topic), queue) →
            topic ∉ sys.subscriber.subscribed) ∧
        (∀ topic queue,
          sys.shared.spscQueueSubscriber.pop = some ((.unsubscribe, topic), queue) →
            topic ∈ sys.subscriber.subscribed) ∧
        sys.subscriber.topicsSubscribedCount = sys.subscriber.subscribed.card := by
  have hrun : Runs.run (step clientParser) (.start twoTopics) twoSessions = some _ := rfl
  exact ⟨_, hrun, upstream_matches hrun rfl⟩

end Simulation

/-! ## When an event is lost -/

section Losses

variable [DecidableEq ω] {parseJson : JsonParser} {cfg : Str}

/-- The configured topics that have a session. -/
def SharedState.activeTopics (cfg : Str) (st : SharedState ω) : Finset Str :=
  (split cfg).toFinset.filter fun t => (st.sessionsOf t).Nonempty

/-- Whether an action makes a topic gain its first session or lose its last. -/
def flips (parseJson : JsonParser) (cfg : Str) (sys : System ω) (a : Action ω) : Nat :=
  match step parseJson sys a with
  | some sys' =>
      if sys'.shared.activeTopics cfg = sys.shared.activeTopics cfg then 0 else 1
  | none => 0

/-- How often topics gain their first or lose their last session in a run. -/
def transitions (parseJson : JsonParser) (cfg : Str) : System ω → List (Action ω) → Nat :=
  Backlog.arrivals (step parseJson) (flips parseJson cfg)

/-- How often the subscriber asks the queue for an event. -/
def pops (as : List (Action ω)) : Nat := Backlog.departures popped as

/-- Only configured topics have a symbol. -/
def SymbolsConfigured (cfg : Str) (sys : System ω) : Prop :=
  ∀ t sym, sys.shared.symbols t = some (some sym) → t ∈ split cfg

omit [DecidableEq ω] in
theorem symbolsConfigured_start (cfg : Str) : SymbolsConfigured cfg (.start cfg : System ω) := by
  intro t sym h
  by_contra ht
  have hnone : (SharedState.init cfg : SharedState ω).symbols t = none := by
    rw [SharedState.init_symbols, if_neg ht]
  exact absurd (hnone.symm.trans h) nofun

omit [DecidableEq ω] in
/-- A section changes the symbol of a topic that has one, or adds a null. -/
theorem SymbolsConfigured.update {sys sys' : System ω} (h : SymbolsConfigured cfg sys)
    {topic : Str} {p : Option (Symbol ω)}
    (hsymbols : sys'.shared.symbols = Function.update sys.shared.symbols topic (some p))
    (hp : p = none ∨ ∃ sym, sys.shared.symbols topic = some (some sym)) :
    SymbolsConfigured cfg sys' := by
  intro t sym ht
  rw [hsymbols] at ht
  by_cases heq : t = topic
  · subst heq
    rw [Function.update_self] at ht
    rcases hp with rfl | ⟨sym', hsym'⟩
    · cases ht
    · exact h t sym' hsym'
  · rw [Function.update_of_ne heq] at ht
    exact h t sym ht

theorem SymbolsConfigured.step {sys sys' : System ω} {a : Action ω}
    (h : SymbolsConfigured cfg sys) (hstep : step parseJson sys a = some sys') :
    SymbolsConfigured cfg sys' := by
  cases (move_of_step hstep).2 with
  | joinSymbol hpc hsym =>
      exact h.update (SharedState.settleSymbol_symbols ..) (.inr ⟨_, hsym⟩)
  | leaveSymbol hpc hsym =>
      exact h.update (SharedState.settleSymbol_symbols ..) (.inr ⟨_, hsym⟩)
  | nullSymbol hpending hnull => exact h.update rfl (.inl rfl)
  | _ => exact h

omit [DecidableEq ω] in
theorem SymbolsConfigured.active {sys : System ω} (h : SymbolsConfigured cfg sys) :
    sys.shared.Active (sys.shared.activeTopics cfg) := by
  intro t
  rw [SharedState.activeTopics, Finset.mem_filter, List.mem_toFinset, and_iff_right_iff_imp]
  intro hne
  by_contra ht
  have hnull : ∀ sym, sys.shared.symbols t ≠ some (some sym) := fun sym hsym =>
    ht (h t sym hsym)
  rw [SharedState.sessionsOf_of_null hnull] at hne
  exact Finset.not_nonempty_empty hne

omit [DecidableEq ω] in
theorem SharedState.Active.unique {st : SharedState ω} {S S' : Finset Str} (h : st.Active S)
    (h' : st.Active S') : S = S' :=
  Finset.ext fun t => (h t).trans (h' t).symm

/-- A step changes the active topics exactly when it pushes an event. -/
theorem flips_of_silent {sys sys' : System ω} {a : Action ω} (h : SymbolsConfigured cfg sys)
    (hstep : step parseJson sys a = some sys')
    (hactive : ∀ S, sys.shared.Active S → sys'.shared.Active S) :
    flips parseJson cfg sys a = 0 := by
  have heq := (h.step hstep).active.unique (hactive _ h.active)
  simp only [flips, hstep, heq, if_true]

theorem flips_of_edge {sys sys' : System ω} {a : Action ω} {e : Edge Str}
    (h : SymbolsConfigured cfg sys) (hstep : step parseJson sys a = some sys')
    (hedge : ∀ S, sys.shared.Active S →
      EdgeLog.Enabled S e ∧ sys'.shared.Active (EdgeLog.after S e)) :
    flips parseJson cfg sys a = 1 := by
  obtain ⟨henabled, hactive⟩ := hedge _ h.active
  have heq := (h.step hstep).active.unique hactive
  simp only [flips, hstep, heq, EdgeLog.after_ne henabled, if_false]

/-- The queue of events, as a buffer that loses what does not fit. -/
def eventBuffer (parseJson : JsonParser) (cfg : Str) :
    Backlog.LossyBuffer (step parseJson (ω := ω)) 1024 where
  Inv := SymbolsConfigured cfg
  len sys := sys.shared.spscQueueSubscriber.items.length
  Lost sys := sys.shared.lost ≠ []
  arrive := flips parseJson cfg
  depart := popped
  inv_step h hstep := h.step hstep
  len_le sys := sys.shared.spscQueueSubscriber.fits
  admits := by
    intro sys sys' a h hstep hroom
    cases (move_of_step hstep).2.effect with
    | silent ha hactive hqueue hlost hsub =>
        rw [flips_of_silent h hstep hactive, ha, hqueue, hlost]
        exact ⟨rfl, Iff.rfl⟩
    | edge ha e hedge hqueue hlost hsub =>
        rw [flips_of_edge h hstep hedge, ha] at hroom ⊢
        obtain ⟨hitems, hsame⟩ :=
          SharedState.push_of_room (Nat.lt_of_succ_le hroom) (event e)
        rw [hqueue, hlost, hitems, hsame, List.length_append]
        exact ⟨rfl, Iff.rfl⟩
    | deliver ha ev hpop hactive hlost hsub =>
        have hitems := BoundedQueue.pop_eq_some.mp hpop
        rw [flips_of_silent h hstep hactive, ha, hlost, hitems]
        exact ⟨rfl, Iff.rfl⟩
    | nothing ha hpop heq =>
        have hitems := BoundedQueue.pop_eq_none.mp hpop
        subst heq
        rw [flips_of_silent h hstep (fun _ hS => hS), ha, hitems]
        exact ⟨rfl, Iff.rfl⟩
  refuses := by
    intro sys sys' a h hstep hfull
    have hfits := sys.shared.spscQueueSubscriber.fits
    cases (move_of_step hstep).2.effect with
    | silent ha hactive hqueue hlost hsub =>
        rw [flips_of_silent h hstep hactive] at hfull
        omega
    | edge ha e hedge hqueue hlost hsub =>
        rw [flips_of_edge h hstep hedge, ha] at hfull
        rw [hlost, (SharedState.push_of_full (by omega) (event e)).2]
        exact List.append_ne_nil_of_right_ne_nil _ (List.cons_ne_nil _ [])
    | deliver ha ev hpop hactive hlost hsub =>
        rw [flips_of_silent h hstep hactive] at hfull
        omega
    | nothing ha hpop heq =>
        rw [flips_of_silent h hstep (fun S hS => heq ▸ hS)] at hfull
        omega

/-- **A run loses no event exactly when in no stretch of it the topics gain
their first or lose their last session more than 1024 times oftener than the
subscriber pops.**  A push is one step: what pushes that overlap, in the sense
of `Web.Producers`, make of the queue is not counted. -/
theorem no_event_lost_iff {as : List (Action ω)} {sys : System ω}
    (hrun : Runs.run (step parseJson) (.start cfg) as = some sys) :
    sys.shared.lost = [] ↔
      ∀ pre mid post m, as = pre ++ mid ++ post →
        Runs.run (step parseJson) (.start cfg) pre = some m →
          transitions parseJson cfg m mid ≤ pops mid + 1024 := by
  have hlen : (eventBuffer parseJson cfg).len (.start cfg : System ω) = 0 := by
    show (SharedState.init cfg : SharedState ω).spscQueueSubscriber.items.length = 0
    rw [SharedState.init_eq]
    rfl
  have hlost : (System.start cfg : System ω).shared.lost = [] := by
    show (SharedState.init cfg : SharedState ω).lost = []
    rw [SharedState.init_eq]
    rfl
  have hiff := Backlog.LossyBuffer.lossless_iff (b := eventBuffer parseJson cfg)
    (symbolsConfigured_start cfg) hlen (not_not.mpr hlost) hrun
  exact not_not.symm.trans hiff

/-- Two sessions, and no pop: 1024 transitions are far away. -/
theorem no_event_lost_two_sessions :
    ∃ sys : System Nat,
      Runs.run (step clientParser) (.start twoTopics) twoSessions = some sys ∧
        (sys.shared.lost = [] ↔
          ∀ pre mid post m, twoSessions = pre ++ mid ++ post →
            Runs.run (step clientParser) (.start twoTopics) pre = some m →
              transitions clientParser twoTopics m mid ≤ pops mid + 1024) := by
  have hrun : Runs.run (step clientParser) (.start twoTopics) twoSessions = some _ := rfl
  exact ⟨_, hrun, no_event_lost_iff hrun⟩

end Losses

/-! ### One session is enough -/

theorem push_events (st : SharedState ω) (ev : SubscriberEvent) :
    (st.push ev).spscQueueSubscriber.items.length + (st.push ev).lost.length =
      st.spscQueueSubscriber.items.length + st.lost.length + 1 := by
  by_cases hroom : st.spscQueueSubscriber.items.length < 1024
  · obtain ⟨hitems, hlost⟩ := SharedState.push_of_room hroom ev
    rw [hitems, hlost, List.length_append, List.length_singleton]
    omega
  · obtain ⟨hqueue, hlost⟩ := SharedState.push_of_full hroom ev
    rw [hqueue, hlost, List.length_append, List.length_singleton]
    omega

theorem settleSymbol_events {st : SharedState ω} {topic : Str} {sym : Symbol ω} {edge : Prop}
    [Decidable edge] {type : MsgType} (h : edge) :
    (st.settleSymbol topic sym edge type).spscQueueSubscriber.items.length +
        (st.settleSymbol topic sym edge type).lost.length =
      st.spscQueueSubscriber.items.length + st.lost.length + 1 := by
  rw [SharedState.settleSymbol_queue_of_edge h, SharedState.settleSymbol_lost_of_edge h]
  exact push_events st (type, topic)

def eth : Str := "ETH-USD".toList

/-- Session 0 is idle, `X` are the sessions subscribed to the topic, and `n`
events have been pushed, those that were lost included. -/
structure Toggled (n : Nat) (X : Finset Nat) (sys : System Nat) : Prop where
  noFault : sys.fault = false
  idle : sys.pc 0 = .idle
  symbol : ∃ code, sys.shared.symbols eth = some (some ⟨code, X⟩)
  events : sys.shared.spscQueueSubscriber.items.length + sys.shared.lost.length = n

/-- An edge at the topic's symbol, back to idle. -/
theorem Toggled.settle {n : Nat} {X : Finset Nat} {sys : System Nat} (h : Toggled n X sys)
    (st : SharedState Nat) (hqueue : st.spscQueueSubscriber = sys.shared.spscQueueSubscriber)
    (hlost : st.lost = sys.shared.lost) (code : Str) (X' : Finset Nat) {edge : Prop}
    [Decidable edge] (hedge : edge) (type : MsgType) :
    Toggled (n + 1) X'
      ((sys.setShared (st.settleSymbol eth ⟨code, X'⟩ edge type)).goto 0 .idle) := by
  refine ⟨h.noFault, System.goto_pc_self .., ⟨code, ?_⟩, ?_⟩
  · show (st.settleSymbol eth ⟨code, X'⟩ edge type).symbols eth = _
    rw [SharedState.settleSymbol_symbols]
    exact Function.update_self ..
  · show (st.settleSymbol eth ⟨code, X'⟩ edge type).spscQueueSubscriber.items.length +
      (st.settleSymbol eth ⟨code, X'⟩ edge type).lost.length = n + 1
    rw [settleSymbol_events hedge, hqueue, hlost, h.events]

theorem Toggled.subscribe {n : Nat} {sys : System Nat} (h : Toggled n ∅ sys) :
    ∃ sys', Runs.run (step clientParser) sys
        [.receive 0 subscribeEth, .advance 0, .advance 0] = some sys' ∧
      Toggled (n + 1) {0} sys' := by
  obtain ⟨code, hsym⟩ := h.symbol
  have hreceive : step clientParser sys (.receive 0 subscribeEth) =
      some (sys.goto 0 (.subscribe [eth])) := by
    simp only [step, h.noFault, h.idle, Bool.false_eq_true, if_false]
    rfl
  obtain ⟨sys', hrun, hout⟩ := run_subscribe_body clientParser 0
    (sys.goto 0 (.subscribe [eth])) eth [] h.noFault (sys.goto_pc_self 0 _)
  have hempty : (sys.shared.insertTopic 0 eth).sessionsOf eth = ∅ :=
    SharedState.sessionsOf_of_symbol hsym
  have hsection : SharedState.subscribeTopic 0 sys.shared eth =
      .ok ((sys.shared.insertTopic 0 eth).settleSymbol eth ⟨code, {0}⟩
        ((sys.shared.insertTopic 0 eth).sessionsOf eth = ∅) .subscribe) :=
    SharedState.joinSymbol_eq (sys.shared.insertTopic 0 eth) 0 eth hsym
  rw [System.goto_shared, hsection] at hout
  refine ⟨sys', (Runs.run_cons_of_step hreceive _).trans hrun, ?_⟩
  rw [hout.of_goto]
  exact h.settle (sys.shared.insertTopic 0 eth) rfl rfl code {0} hempty .subscribe

theorem Toggled.unsubscribe {n : Nat} {sys : System Nat} (h : Toggled n {0} sys) :
    ∃ sys', Runs.run (step clientParser) sys
        [.receive 0 unsubscribeEth, .advance 0, .advance 0] = some sys' ∧
      Toggled (n + 1) ∅ sys' := by
  obtain ⟨code, hsym⟩ := h.symbol
  have hreceive : step clientParser sys (.receive 0 unsubscribeEth) =
      some (sys.goto 0 (.unsubscribe false [eth])) := by
    simp only [step, h.noFault, h.idle, Bool.false_eq_true, if_false]
    rfl
  obtain ⟨sys', hrun, hout⟩ := run_unsubscribe_body clientParser 0 false
    (sys.goto 0 (.unsubscribe false [eth])) eth [] h.noFault (sys.goto_pc_self 0 _)
  have hone : (sys.shared.eraseTopic 0 eth).sessionsOf eth = {0} :=
    SharedState.sessionsOf_of_symbol hsym
  have hsection : SharedState.unsubscribeTopic 0 sys.shared eth =
      .ok ((sys.shared.eraseTopic 0 eth).settleSymbol eth ⟨code, ∅⟩
        ((sys.shared.eraseTopic 0 eth).sessionsOf eth = {0}) .unsubscribe) :=
    SharedState.leaveSymbol_eq (sys.shared.eraseTopic 0 eth) 0 eth hsym
  rw [System.goto_shared, hsection] at hout
  refine ⟨sys', (Runs.run_cons_of_step hreceive _).trans hrun, ?_⟩
  rw [hout.of_goto]
  exact h.settle (sys.shared.eraseTopic 0 eth) rfl rfl code ∅ hone .unsubscribe

/-- Session 0 subscribes to a topic and unsubscribes from it again. -/
def toggle : List (Action Nat) :=
  [.receive 0 subscribeEth, .advance 0, .advance 0,
    .receive 0 unsubscribeEth, .advance 0, .advance 0]

theorem Toggled.run_toggles (k : Nat) {n : Nat} {sys : System Nat} (h : Toggled n ∅ sys) :
    ∃ sys', Runs.run (step clientParser) sys (List.replicate k toggle).flatten = some sys' ∧
      Toggled (n + 2 * k) ∅ sys' := by
  induction k generalizing n sys with
  | zero => exact ⟨sys, rfl, h⟩
  | succ k ih =>
      obtain ⟨sys₁, hrun₁, h₁⟩ := h.subscribe
      obtain ⟨sys₂, hrun₂, h₂⟩ := h₁.unsubscribe
      obtain ⟨sys', hrun', h'⟩ := ih h₂
      refine ⟨sys', ?_, ?_⟩
      · rw [List.replicate_succ, List.flatten_cons, toggle]
        exact (Runs.run_append_of_run hrun₁ _).trans ((Runs.run_append_of_run hrun₂ _).trans hrun')
      · have hn : n + 2 * (k + 1) = n + 1 + 1 + 2 * k := by omega
        rw [hn]
        exact h'

/-- One session toggling one configured topic 513 times, with a subscriber that
never pops, loses an event. -/
theorem toggling_loses_event :
    ∃ sys : System Nat,
      Runs.run (step clientParser) (.start twoTopics)
          ([.construct 0, .accept 0] ++ (List.replicate 513 toggle).flatten) = some sys ∧
        sys.shared.lost ≠ [] := by
  have hstart : ∃ sys, Runs.run (step clientParser) (.start twoTopics)
      [.construct 0, .accept 0] = some sys ∧ Toggled 0 ∅ sys :=
    ⟨_, rfl, rfl, rfl, ⟨eth, rfl⟩, rfl⟩
  obtain ⟨sys₀, hrun₀, h₀⟩ := hstart
  obtain ⟨sys, hrun, h⟩ := h₀.run_toggles 513
  refine ⟨sys, (Runs.run_append_of_run hrun₀ _).trans hrun, ?_⟩
  intro hlost
  have hevents := h.events
  have hfits := sys.shared.spscQueueSubscriber.fits
  rw [hlost, List.length_nil] at hevents
  omega

end SravzBackend.Web
