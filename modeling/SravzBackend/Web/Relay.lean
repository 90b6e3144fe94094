/-
# `Web.Relay` — from Redis to the clients' sockets

All of the websocket server at once: the sessions with their strands and write
queues (`Web.Wire`), the publisher between them, and the subscriber that feeds
it (`Web.Feed`).

`relay_delivers`: in every interleaving, what is on a client's connection, or
on its way there, is messages consumed from Redis, in the order they were
consumed in and none of them twice, each of a configured topic that the
session was subscribed to when the publisher took the message; and a session
that is still there lacks none that was taken while it was subscribed.  The
queue between the subscriber and the publisher may overflow.

`relay_catches_up`: the publisher and the strands need nobody else's steps to
bring to the clients what they have.
-/
import SravzBackend.Web.Feed
import SravzBackend.Web.Wire

namespace SravzBackend.Web

variable {ω : Type}

/-! ## The whole server -/

structure Relay (ω : Type) where
  wire : Wire ω
  pc : SubscriberPc
  asked : Finset Str

namespace Relay

def start (cfg : Str) : Relay ω := ⟨.start cfg, .consuming, ∅⟩

def publishing (r : Relay ω) : Publishing ω := r.wire.publishing

/-- The subscriber's part. -/
def feed (r : Relay ω) : Feed ω := ⟨r.publishing, r.pc, r.asked⟩

end Relay

/-- What the subscriber, the publisher or a session does beside its writes; or
a handler of a session's strand. -/
inductive RelayAction (ω : Type) where
  | feed (a : FeedAction ω)
  | onSend (wp : WeakPtr ω)
  | onWrite (wp : WeakPtr ω) (i : Nat) (ec : Bool)

namespace RelayAction

def onFeed : RelayAction ω → Option (FeedAction ω)
  | feed a => some a
  | onSend _ => none
  | onWrite _ _ _ => none

def onPublish : RelayAction ω → Option (PublishAction ω)
  | feed a => a.publish
  | onSend _ => none
  | onWrite _ _ _ => none

def onWire : RelayAction ω → Option (WireAction ω)
  | feed a => a.publish.map .publish
  | onSend wp => some (.onSend wp)
  | onWrite wp i ec => some (.onWrite wp i ec)

/-- The message that is consumed, with its channel. -/
def consumed : RelayAction ω → Option (Str × Str)
  | feed (.consumeMessage channel msg) => some (channel, msg)
  | _ => none

end RelayAction

section Steps

variable [DecidableEq ω] (parseJson : JsonParser)

def relayStep (r : Relay ω) : RelayAction ω → Option (Relay ω)
  | .feed a =>
      if a.Ready r.feed then
        match a.publish with
        | some b =>
            (wireStep parseJson r.wire (.publish b)).map fun w =>
              ⟨w, a.after r.pc, r.asked ∪ w.publishing.system.subscriber.subscribed⟩
        | none =>
            if r.publishing.system.fault then none else some { r with pc := a.after r.pc }
      else none
  | .onSend wp => (wireStep parseJson r.wire (.onSend wp)).map fun w => { r with wire := w }
  | .onWrite wp i ec =>
      (wireStep parseJson r.wire (.onWrite wp i ec)).map fun w => { r with wire := w }

variable {parseJson}

/-! ## Its parts -/

theorem publishing_of_wireStep {w w' : Wire ω} {b : PublishAction ω}
    (h : wireStep parseJson w (.publish b) = some w') :
    publishStep parseJson w.publishing b = some w'.publishing := by
  cases wireMove_of_step h with
  | publish _ hp => exact hp

/-- The handlers of a strand leave the publisher alone. -/
theorem publishing_of_handler {w w' : Wire ω} {a : WireAction ω}
    (h : wireStep parseJson w a = some w') (ha : ∀ b, a ≠ .publish b) :
    w'.publishing = w.publishing := by
  cases wireMove_of_step h with
  | @publish b _ _ _ => exact absurd rfl (ha b)
  | onSend _ _ => rfl
  | onWrite _ _ => rfl

/-- What a step is for the wire, the publisher and the subscriber. -/
structure Relay.Parts (parseJson : JsonParser) (r : Relay ω) (a : RelayAction ω)
    (r' : Relay ω) : Prop where
  wire : Runs.run (wireStep parseJson) r.wire a.onWire.toList = some r'.wire
  publish : Runs.run (publishStep parseJson) r.publishing a.onPublish.toList = some r'.publishing
  feed : Runs.run (feedStep parseJson) r.feed a.onFeed.toList = some r'.feed

theorem run_singleton {σ α : Type} {step : σ → α → Option σ} {s s' : σ} {a : α}
    (h : step s a = some s') : Runs.run step s [a] = some s' :=
  Runs.run_cons_of_step h []

theorem Relay.Parts.handler {r : Relay ω} {w : Wire ω} {a : RelayAction ω} {b : WireAction ω}
    (hw : wireStep parseJson r.wire b = some w) (hb : ∀ c, b ≠ .publish c)
    (hwire : a.onWire = some b) (hpublish : a.onPublish = none) (hfeed : a.onFeed = none) :
    Relay.Parts parseJson r a { r with wire := w } := by
  have hsame : w.publishing = r.publishing := publishing_of_handler hw hb
  refine ⟨?_, ?_, ?_⟩
  · rw [hwire]
    exact run_singleton hw
  · rw [hpublish]
    exact congrArg some hsame.symm
  · rw [hfeed]
    show some r.feed = some ⟨w.publishing, r.pc, r.asked⟩
    rw [hsame]
    rfl

theorem parts_of_step {r r' : Relay ω} {a : RelayAction ω}
    (h : relayStep parseJson r a = some r') : Relay.Parts parseJson r a r' := by
  cases a with
  | onSend wp =>
      obtain ⟨w, hw, rfl⟩ := Option.map_eq_some_iff.mp h
      exact .handler hw (fun _ => nofun) rfl rfl rfl
  | onWrite wp i ec =>
      obtain ⟨w, hw, rfl⟩ := Option.map_eq_some_iff.mp h
      exact .handler hw (fun _ => nofun) rfl rfl rfl
  | feed a =>
      rw [relayStep, Option.ite_none_right_eq_some] at h
      obtain ⟨hready, h⟩ := h
      cases hb : a.publish with
      | some b =>
          rw [hb] at h
          obtain ⟨w, hw, rfl⟩ := Option.map_eq_some_iff.mp h
          have hp := publishing_of_wireStep hw
          refine ⟨?_, ?_, ?_⟩
          · rw [RelayAction.onWire, hb]
            exact run_singleton hw
          · rw [RelayAction.onPublish, hb]
            exact run_singleton hp
          · refine run_singleton ?_
            have hp' : publishStep parseJson r.feed.publishing b = some w.publishing := hp
            simp only [feedStep, if_pos hready, hb, hp']
            rfl
      | none =>
          simp only [hb] at h
          split at h
          · cases h
          · next hfault =>
              cases h
              refine ⟨?_, ?_, ?_⟩
              · rw [RelayAction.onWire, hb]
                rfl
              · rw [RelayAction.onPublish, hb]
                rfl
              · refine run_singleton ?_
                have hfault' : ¬ r.feed.publishing.system.fault = true := hfault
                simp only [feedStep, if_pos hready, hb, if_neg hfault']
                rfl

section Project

variable {cfg : Str} {as : List (RelayAction ω)} {r : Relay ω}

theorem wire_of_run (hrun : Runs.run (relayStep parseJson) (.start cfg) as = some r) :
    Runs.run (wireStep parseJson) (.start cfg) (as.filterMap RelayAction.onWire) = some r.wire :=
  Runs.run_project Relay.wire (fun _ _ _ h => (parts_of_step h).wire) hrun

theorem publishing_of_run (hrun : Runs.run (relayStep parseJson) (.start cfg) as = some r) :
    Runs.run (publishStep parseJson) (.start cfg) (as.filterMap RelayAction.onPublish) =
      some r.publishing :=
  Runs.run_project Relay.publishing (fun _ _ _ h => (parts_of_step h).publish) hrun

theorem feed_of_run (hrun : Runs.run (relayStep parseJson) (.start cfg) as = some r) :
    Runs.run (feedStep parseJson) (.start cfg) (as.filterMap RelayAction.onFeed) = some r.feed :=
  Runs.run_project Relay.feed (fun _ _ _ h => (parts_of_step h).feed) hrun

end Project

/-! ## What is consumed, and what is popped -/

def PublishAction.heard : PublishAction ω → Option (Str × Str)
  | .onMessage channel msg => some (channel, msg)
  | _ => none

omit [DecidableEq ω] in
theorem heard_onPublish (as : List (RelayAction ω)) :
    (as.filterMap RelayAction.onPublish).filterMap PublishAction.heard =
      as.filterMap RelayAction.consumed := by
  rw [List.filterMap_filterMap]
  refine congrArg (List.filterMap · as) (funext fun a => ?_)
  cases a with
  | feed a => cases a <;> rfl
  | onSend wp => rfl
  | onWrite wp i ec => rfl

/-- The publisher pops what it is given, in its order. -/
theorem popped_sublist {cfg : Str} {as : List (PublishAction ω)} {p : Publishing ω}
    (hrun : Runs.run (publishStep parseJson) (.start cfg) as = some p) :
    (p.popped ++ p.spscQueue.items).Sublist (as.filterMap PublishAction.heard) := by
  refine Runs.run_inv_history (P := fun as p =>
    (p.popped ++ p.spscQueue.items).Sublist (as.filterMap PublishAction.heard))
    (List.Sublist.refl []) ?_ hrun
  intro pre p a p' _ h hstep
  rw [List.filterMap_append]
  have hquiet : (p'.popped ++ p'.spscQueue.items) = (p.popped ++ p.spscQueue.items) →
      (p'.popped ++ p'.spscQueue.items).Sublist
        (pre.filterMap PublishAction.heard ++ [a].filterMap PublishAction.heard) := fun hsame =>
    hsame ▸ h.trans (List.sublist_append_left _ _)
  cases publishMove_of_step hstep with
  | session hsys => exact hquiet rfl
  | onMessage channel msg =>
      rcases p.spscQueue.push_items (channel, msg) with hitems | hitems
      · show (p.popped ++ (p.spscQueue.push (channel, msg)).1.items).Sublist _
        rw [hitems, ← List.append_assoc]
        exact h.append (List.Sublist.refl [(channel, msg)])
      · exact hquiet (congrArg (p.popped ++ ·) hitems)
  | @pop entry queue hpc hq =>
      refine hquiet ?_
      rw [BoundedQueue.pop_eq_some.mp hq]
      exact (List.append_cons _ _ _).symm
  | popNothing hq => exact hquiet rfl
  | snapshot hpc hsym hnodup horder =>
      refine hquiet ?_
      rw [Publishing.send_popped, send_spscQueue]
  | nullSymbol hpc hnull => exact hquiet rfl
  | lock hpc =>
      refine hquiet ?_
      rw [Publishing.lock, Publishing.send_popped, send_spscQueue]

/-! ## What reaches a client -/

/-- The messages of the turns that found a session, with their topics. -/
def ticksFor (ts : List (Turn ω)) (wp : WeakPtr ω) : List (Str × Str) :=
  (ts.filter fun t => t.locks.contains (wp, true)).map Turn.entry

theorem map_snd_ticksFor (ts : List (Turn ω)) (wp : WeakPtr ω) :
    (ticksFor ts wp).map Prod.snd = messagesFor ts wp := by
  rw [ticksFor, messagesFor, List.map_map]
  refine congrArg (List.map Turn.message) (List.filter_congr fun t _ => ?_)
  exact Bool.eq_iff_iff.mpr (List.contains_iff_mem.trans decide_eq_true_iff.symm)

/-- What has been sent to a session is on its connection, or on its way there. -/
theorem carried_of_run {cfg : Str} {as : List (RelayAction ω)} {r : Relay ω}
    (hrun : Runs.run (relayStep parseJson) (.start cfg) as = some r) (wp : WeakPtr ω) :
    (r.wire.conn wp).written ++ (r.wire.conn wp).queue ++ r.wire.posted wp =
      (ticksFor r.publishing.turns wp).map Prod.snd := by
  have hcarries := carries_run (wire_of_run hrun)
  obtain ⟨acts, hacts⟩ := hcarries.carried wp
  have hsent := hacts.sent_eq
  rw [map_snd_ticksFor]
  exact hsent.symm.trans (hcarries.delivers.sent wp)

/-- The publisher takes the session at a snapshot for the message `e`. -/
def TakenFor (wp : WeakPtr ω) (e : Str × Str) (r : Relay ω) (a : RelayAction ω) : Prop :=
  (∃ order, a = .feed (.snapshot order)) ∧ r.publishing.pc = .popped e.1 e.2 ∧
    wp.address ∈ r.publishing.system.shared.sessionsOf e.1 ∧
    wp = r.publishing.weakFromThis wp.address

/-- **In every interleaving of the sessions, their strands, the publisher and
the subscriber, and for every session: what has been written to its
connection, is queued for it or is posted, is a part of what was consumed from
Redis, in its order; each of these messages is of a configured topic, and was
taken by the publisher when the session was subscribed to it; and of the
messages that were taken so and are done with, a session that is still there
lacks none: it was found at its turn for each of them.** -/
theorem relay_delivers {cfg : Str} {as : List (RelayAction ω)} {r : Relay ω}
    (hrun : Runs.run (relayStep parseJson) (.start cfg) as = some r) (wp : WeakPtr ω) :
    (r.wire.conn wp).written ++ (r.wire.conn wp).queue ++ r.wire.posted wp =
        (ticksFor r.publishing.turns wp).map Prod.snd ∧
      (ticksFor r.publishing.turns wp).Sublist (as.filterMap RelayAction.consumed) ∧
      (∀ e ∈ ticksFor r.publishing.turns wp, e.1 ∈ split cfg ∧
        Runs.Took (relayStep parseJson) (.start cfg) as (TakenFor wp e)) ∧
      (r.publishing.owned wp = true → ∀ t ∈ r.publishing.finished, wp ∈ t.members →
        (wp, true) ∈ t.locks ∧ t.entry ∈ ticksFor r.publishing.turns wp) := by
  have hpublish := publishing_of_run hrun
  have hcarries := carries_run (wire_of_run hrun)
  have hdelivers := delivers_run hpublish
  have hconfigured := configured_run (feed_of_run hrun)
  have hfaithful := faithful_run hpublish
  refine ⟨carried_of_run hrun wp, ?_, ?_, ?_⟩
  · have hpopped : (r.publishing.popped ++ r.publishing.spscQueue.items).Sublist
        (as.filterMap RelayAction.consumed) := heard_onPublish as ▸ popped_sublist hpublish
    have hturns : (r.publishing.turns.map Turn.entry).Sublist r.publishing.popped :=
      hdelivers.order ▸ List.sublist_append_left _ _
    exact (List.filter_sublist.map Turn.entry).trans
      (hturns.trans ((List.sublist_append_left _ _).trans hpopped))
  · intro e he
    obtain ⟨t, ht, rfl⟩ := List.mem_map.mp he
    obtain ⟨hturn, hlock⟩ := List.mem_filter.mp ht
    have hmember : wp ∈ t.members :=
      (hfaithful t hturn).members wp (List.mem_map_of_mem (List.contains_iff_mem.mp hlock))
    refine ⟨?_, ?_⟩
    · refine hconfigured.fed.popped t.entry ?_
      show t.entry ∈ r.publishing.popped
      rw [hdelivers.order]
      exact List.mem_append_left _ (List.mem_map_of_mem hturn)
    · refine ((hfaithful t hturn).snapshot.of_project Relay.publishing
        (fun _ _ _ h => (parts_of_step h).publish) hrun).mono ?_
      rintro pre q a - ⟨b, hb, ⟨⟨order, rfl⟩, hpc, hmembers⟩, -⟩
      obtain ⟨s, hs, hwp⟩ := Finset.mem_image.mp (hmembers ▸ hmember)
      subst hwp
      refine ⟨⟨order, ?_⟩, hpc, hs, rfl⟩
      cases a with
      | feed a => cases a <;> cases hb; rfl
      | onSend wp' => cases hb
      | onWrite wp' i ec => cases hb
  · intro howned t ht hmember
    have hturn : t ∈ r.publishing.turns := by
      unfold Publishing.turns
      split
      · exact List.mem_append_left _ ht
      · exact ht
    have hlocked : wp ∈ t.locked := by
      rw [← List.append_nil t.locked]
      exact ((hdelivers.finished t ht).mem wp).mpr hmember
    have hfound : (wp, true) ∈ t.locks := (hcarries.kept.found howned hturn).mpr hlocked
    exact ⟨hfound, List.mem_map_of_mem
      (List.mem_filter.mpr ⟨hturn, List.contains_iff_mem.mpr hfound⟩)⟩

/-! ## Catching up -/

/-- What the publisher does, and the handlers of strands that do not fail. -/
def RelayAction.Own : RelayAction ω → Prop
  | .feed a => a = .pop ∨ (∃ order, a = .snapshot order) ∨ a = .lock
  | .onSend _ => True
  | .onWrite _ i ec => i = 0 ∧ ec = false

/-- A step of the publisher is one of the server. -/
theorem relayStep_publish {r : Relay ω} {a : FeedAction ω} {b : PublishAction ω}
    {p : Publishing ω} (hready : a.Ready r.feed) (hb : a.publish = some b)
    (hallows : r.wire.allows b = true) (hp : publishStep parseJson r.publishing b = some p) :
    ∃ r', relayStep parseJson r (.feed a) = some r' ∧ r'.publishing = p := by
  have hp' : publishStep parseJson r.wire.publishing b = some p := hp
  have hw : wireStep parseJson r.wire (.publish b) =
      some { r.wire with publishing := p, posted := r.wire.post b } := by
    simp only [wireStep, hallows, if_true, hp']
  refine ⟨⟨{ r.wire with publishing := p, posted := r.wire.post b }, a.after r.pc,
    r.asked ∪ p.system.subscriber.subscribed⟩, ?_, rfl⟩
  simp only [relayStep, if_pos hready, hb, hw]
  rfl

/-- Between two messages of the publisher's, only what it has still to send
changes. -/
structure Relay.TurnOver (r r' : Relay ω) : Prop where
  pc : r'.publishing.pc = .waiting
  system : r'.publishing.system = r.publishing.system
  queue : r'.publishing.spscQueue = r.publishing.spscQueue
  popped : r'.publishing.popped = r.publishing.popped

variable (parseJson) in
/-- The locks that are left in a turn, by induction on them. -/
theorem run_locks (rest : List (WeakPtr ω)) :
    ∀ {r : Relay ω} {turn : Turn ω} {wp : WeakPtr ω}, r.publishing.pc = .sending turn wp rest →
      r.publishing.system.fault = false →
      ∃ r', Runs.Leads (relayStep parseJson) RelayAction.Own r r' ∧
        r.TurnOver r' := by
  have hown : RelayAction.Own (.feed (.lock : FeedAction ω)) := .inr (.inr rfl)
  induction rest with
  | nil =>
      intro r turn wp hpc hfault
      have hp : publishStep parseJson r.publishing .lock = some (r.publishing.lock turn wp []) := by
        simp only [publishStep, hfault, hpc, Bool.false_eq_true, if_false]
      obtain ⟨r', hstep, hr'⟩ := relayStep_publish (a := .lock) trivial rfl rfl hp
      refine ⟨r', .of_step hown hstep, ?_⟩
      constructor <;> rw [hr'] <;> rfl
  | cons next rest ih =>
      intro r turn wp hpc hfault
      have hp : publishStep parseJson r.publishing .lock =
          some (r.publishing.lock turn wp (next :: rest)) := by
        simp only [publishStep, hfault, hpc, Bool.false_eq_true, if_false]
      obtain ⟨r₁, hstep, hr₁⟩ := relayStep_publish (a := .lock) trivial rfl rfl hp
      have hpc₁ : r₁.publishing.pc =
          .sending { turn with locks := turn.locks ++ [(wp, r.publishing.owned wp)] } next rest := by
        rw [hr₁]
        rfl
      have hsystem₁ : r₁.publishing.system = r.publishing.system := by
        rw [hr₁]
        rfl
      obtain ⟨r', hleads, hover⟩ := ih hpc₁ (hsystem₁ ▸ hfault)
      refine ⟨r', .head hown hstep hleads, hover.pc, hover.system.trans hsystem₁, ?_, ?_⟩
      · rw [hover.queue, hr₁]
        rfl
      · rw [hover.popped, hr₁]
        rfl

/-- The message in hand has a symbol, and gets its turn. -/
theorem run_turn {cfg : Str} {as : List (RelayAction ω)} {r : Relay ω}
    (hrun : Runs.run (relayStep parseJson) (.start cfg) as = some r) {topic message : Str}
    (hpc : r.publishing.pc = .popped topic message)
    (hfault : r.publishing.system.fault = false) :
    ∃ r', Runs.Leads (relayStep parseJson) RelayAction.Own r r' ∧
      r.TurnOver r' := by
  have hconfigured := configured_run (feed_of_run hrun)
  obtain ⟨sym, hsym⟩ : ∃ sym, r.publishing.system.shared.symbols topic = some (some sym) :=
    hconfigured.fed.symbol hpc
  set order := sym.sessions.toList with horder
  set turn : Turn ω := ⟨topic, message, sym.sessions.image r.publishing.weakFromThis, []⟩ with hturn
  have hp : publishStep parseJson r.publishing (.snapshot order) =
      some (r.publishing.send turn (order.map r.publishing.weakFromThis)) := by
    simp only [publishStep, hfault, hpc, Bool.false_eq_true, if_false]
    rw [Publishing.snapshot_eq hsym, if_pos ⟨sym.sessions.nodup_toList, sym.sessions.toList_toFinset⟩]
  have hown : RelayAction.Own (.feed (.snapshot order)) := .inr (.inl ⟨order, rfl⟩)
  obtain ⟨r₁, hstep, hr₁⟩ := relayStep_publish (a := .snapshot order) trivial rfl rfl hp
  have hsystem : r₁.publishing.system = r.publishing.system := by
    rw [hr₁, Publishing.send_system]
  have hqueue : r₁.publishing.spscQueue = r.publishing.spscQueue := by
    rw [hr₁, send_spscQueue]
  have hpopped : r₁.publishing.popped = r.publishing.popped := by
    rw [hr₁, Publishing.send_popped]
  cases hlist : order.map r.publishing.weakFromThis with
  | nil =>
      refine ⟨r₁, .of_step hown hstep, ?_, hsystem, hqueue, hpopped⟩
      rw [hr₁, hlist]
      rfl
  | cons wp rest =>
      have hsending : r₁.publishing.pc = .sending turn wp rest := by
        rw [hr₁, hlist]
        rfl
      obtain ⟨r', hleads, hover⟩ := run_locks parseJson rest hsending (hsystem ▸ hfault)
      exact ⟨r', .head hown hstep hleads, hover.pc, hover.system.trans hsystem,
        hover.queue.trans hqueue, hover.popped.trans hpopped⟩

/-- One message after the other, by induction on those that are queued. -/
theorem run_turns {cfg : Str} (queued : List (Str × Str)) :
    ∀ {as : List (RelayAction ω)} {r : Relay ω},
      Runs.run (relayStep parseJson) (.start cfg) as = some r → r.publishing.pc = .waiting →
      r.publishing.system.fault = false → r.publishing.spscQueue.items = queued →
      ∃ r', Runs.Leads (relayStep parseJson) RelayAction.Own r r' ∧
        r'.publishing.pc = .waiting ∧ r'.publishing.system = r.publishing.system ∧
        r'.publishing.spscQueue.items = [] ∧
        r'.publishing.popped = r.publishing.popped ++ queued := by
  induction queued with
  | nil =>
      exact fun _ hpc _ hitems => ⟨_, .refl _, hpc, rfl, hitems, (List.append_nil _).symm⟩
  | cons entry queued ih =>
      intro as r hrun hpc hfault hitems
      obtain ⟨queue, hqueue, rfl⟩ : ∃ queue, r.publishing.spscQueue.pop = some (entry, queue) ∧
          queue.items = queued := by
        refine ⟨⟨queued, ?_⟩, BoundedQueue.pop_eq_some.mpr hitems, rfl⟩
        have hfits := r.publishing.spscQueue.fits
        rw [hitems] at hfits
        exact Nat.le_of_succ_le hfits
      have hp : publishStep parseJson r.publishing .pop = some { r.publishing with
          spscQueue := queue
          pc := .popped entry.1 entry.2
          popped := r.publishing.popped ++ [entry] } := by
        simp only [publishStep, hfault, hpc, Bool.false_eq_true, if_false, Publishing.pop, hqueue]
      obtain ⟨r₁, hstep, hr₁⟩ := relayStep_publish (a := .pop) trivial rfl rfl hp
      have hrun₁ := Runs.run_concat_eq_some.mpr ⟨r, hrun, hstep⟩
      have hpc₁ : r₁.publishing.pc = .popped entry.1 entry.2 := by rw [hr₁]
      have hsystem₁ : r₁.publishing.system = r.publishing.system := by rw [hr₁]
      obtain ⟨r₂, ⟨bs, hbs, hrun₂⟩, hover⟩ := run_turn hrun₁ hpc₁ (hsystem₁ ▸ hfault)
      have hsystem₂ := hover.system.trans hsystem₁
      have hitems₂ : r₂.publishing.spscQueue.items = queue.items := by rw [hover.queue, hr₁]
      obtain ⟨r', hleads', hpc', hsystem', hnone, hpopped⟩ :=
        ih ((Runs.run_append_of_run hrun₁ bs).trans hrun₂) hover.pc (hsystem₂ ▸ hfault) hitems₂
      have hown : RelayAction.Own (.feed (.pop : FeedAction ω)) := .inl rfl
      refine ⟨r', .head hown hstep (.trans ⟨bs, hbs, hrun₂⟩ hleads'), hpc',
        hsystem'.trans hsystem₂, hnone, ?_⟩
      rw [hpopped, hover.popped, hr₁, List.append_assoc]
      rfl

/-- Wherever the publisher is, it gets through what it has. -/
theorem publisher_catches_up {cfg : Str} {as : List (RelayAction ω)} {r : Relay ω}
    (hrun : Runs.run (relayStep parseJson) (.start cfg) as = some r)
    (hfault : r.publishing.system.fault = false) :
    ∃ r', Runs.Leads (relayStep parseJson) RelayAction.Own r r' ∧
      r'.publishing.pc = .waiting ∧ r'.publishing.system = r.publishing.system ∧
      r'.publishing.spscQueue.items = [] ∧
      r'.publishing.popped = r.publishing.popped ++ r.publishing.spscQueue.items := by
  obtain ⟨r₁, ⟨bs, hbs, hrun₁⟩, hover⟩ : ∃ r₁,
      Runs.Leads (relayStep parseJson) RelayAction.Own r r₁ ∧ r.TurnOver r₁ := by
    cases hpc : r.publishing.pc with
    | waiting => exact ⟨r, .refl r, hpc, rfl, rfl, rfl⟩
    | popped topic message => exact run_turn hrun hpc hfault
    | sending turn wp rest => exact run_locks parseJson rest hpc hfault
  obtain ⟨r', hleads', hpc, hsystem, hnone, hpopped⟩ :=
    run_turns r.publishing.spscQueue.items ((Runs.run_append_of_run hrun bs).trans hrun₁)
      hover.pc (hover.system ▸ hfault) (hover.queue ▸ rfl)
  exact ⟨r', .trans ⟨bs, hbs, hrun₁⟩ hleads', hpc, hsystem.trans hover.system, hnone,
    hover.popped ▸ hpopped⟩

/-- The handlers of a strand are steps of the server. -/
theorem run_handlers {wp : WeakPtr ω} {bs : List (WireAction ω)}
    (hbs : ∀ b ∈ bs, WireAction.Own wp b) {r : Relay ω} {w : Wire ω}
    (hrun : Runs.run (wireStep parseJson) r.wire bs = some w) :
    Runs.Leads (relayStep parseJson) RelayAction.Own r { r with wire := w } := by
  induction bs generalizing r with
  | nil =>
      cases hrun
      exact .refl r
  | cons b bs ih =>
      obtain ⟨w₁, hstep, hrest⟩ := Runs.run_cons_eq_some.mp hrun
      obtain ⟨c, hc, hcstep⟩ : ∃ c, RelayAction.Own c ∧
          relayStep parseJson r c = some { r with wire := w₁ } := by
        rcases hbs b List.mem_cons_self with rfl | rfl
        · exact ⟨.onSend wp, trivial, by rw [relayStep, hstep]; rfl⟩
        · exact ⟨.onWrite wp 0 false, ⟨rfl, rfl⟩, by rw [relayStep, hstep]; rfl⟩
      exact .head hc hcstep (ih (r := { r with wire := w₁ })
        (fun b hb => hbs b (List.mem_cons_of_mem _ hb)) hrest)

/-- The handlers of one strand leave the other sessions alone. -/
theorem other_of_handlers {wp other : WeakPtr ω} (hne : other ≠ wp) {bs : List (WireAction ω)}
    (hbs : ∀ b ∈ bs, WireAction.Own wp b) {w w' : Wire ω}
    (hrun : Runs.run (wireStep parseJson) w bs = some w') :
    w'.posted other = w.posted other ∧ w'.conn other = w.conn other := by
  refine Runs.run_inv
    (P := fun x => x.posted other = w.posted other ∧ x.conn other = w.conn other)
    (G := WireAction.Own wp) ?_ ⟨rfl, rfl⟩ hbs hrun
  rintro x b x' ⟨hposted, hconn⟩ hb hstep
  cases wireMove_of_step hstep with
  | publish _ _ => rcases hb with hb | hb <;> cases hb
  | @onSend wp' ss rest _ _ =>
      obtain rfl : wp' = wp := by
        rcases hb with hb | hb <;> cases hb
        rfl
      exact ⟨(Function.update_of_ne hne ..).trans hposted, (Function.update_of_ne hne ..).trans hconn⟩
  | @onWrite wp' j ec conn _ _ =>
      obtain rfl : wp' = wp := by
        rcases hb with hb | hb <;> cases hb
        rfl
      exact ⟨hposted, (Function.update_of_ne hne ..).trans hconn⟩

omit [DecidableEq ω] in
/-- No step of these is a failed write. -/
theorem not_failedWrite_own {as bs : List (RelayAction ω)} {wp : WeakPtr ω}
    (hno : ¬ FailedWrite (as.filterMap RelayAction.onWire) wp)
    (hbs : ∀ b ∈ bs, RelayAction.Own b) :
    ¬ FailedWrite ((as ++ bs).filterMap RelayAction.onWire) wp := by
  rintro ⟨i, hi⟩
  rw [List.filterMap_append] at hi
  rcases List.mem_append.mp hi with hi | hi
  · exact hno ⟨i, hi⟩
  · obtain ⟨b, hb, hwire⟩ := List.mem_filterMap.mp hi
    have hown := hbs b hb
    cases b with
    | feed a =>
        obtain ⟨c, _, hc⟩ := Option.map_eq_some_iff.mp hwire
        cases hc
    | onSend wp' => cases hwire
    | onWrite wp' j ec =>
        cases hwire
        cases hown.2

/-- The strands of a list of sessions are run one after the other. -/
theorem drain_sessions {cfg : Str} (wps : List (WeakPtr ω)) {as : List (RelayAction ω)}
    {r : Relay ω} (hrun : Runs.run (relayStep parseJson) (.start cfg) as = some r) :
    ∃ r', Runs.Leads (relayStep parseJson) RelayAction.Own r r' ∧
      r'.publishing = r.publishing ∧
      ∀ wp ∈ wps, r.wire.runs wp = true →
        ¬ FailedWrite (as.filterMap RelayAction.onWire) wp →
        r'.wire.posted wp = [] ∧ (r'.wire.conn wp).queue = [] := by
  induction wps with
  | nil => exact ⟨r, .refl r, rfl, fun _ => nofun⟩
  | cons wp wps ih =>
      obtain ⟨r₁, ⟨bs, hbs, hrun₁⟩, hsame, hdrained⟩ := ih
      by_cases hgood : r.wire.runs wp = true ∧
          ¬ FailedWrite (as.filterMap RelayAction.onWire) wp
      · obtain ⟨hruns, hno⟩ := hgood
        have hall := (Runs.run_append_of_run hrun bs).trans hrun₁
        have hruns₁ : r₁.wire.runs wp = true := by
          rw [Wire.runs, show r₁.wire.publishing = r.wire.publishing from hsame]
          exact hruns
        obtain ⟨w', ⟨ws, hws, hwrun⟩, hpublishing, hposted, hqueue⟩ :=
          drain_session (wire_of_run hall) hruns₁ (not_failedWrite_own hno hbs)
        refine ⟨{ r₁ with wire := w' }, .trans ⟨bs, hbs, hrun₁⟩ (run_handlers hws hwrun),
          hpublishing.trans hsame, ?_⟩
        intro wp' hwp' hruns' hno'
        by_cases heq : wp' = wp
        · exact heq ▸ ⟨hposted, hqueue⟩
        · obtain ⟨hp, hq⟩ := hdrained wp'
            ((List.mem_cons.mp hwp').resolve_left heq) hruns' hno'
          obtain ⟨hp', hq'⟩ := other_of_handlers heq hws hwrun
          exact ⟨hp'.trans hp, hq' ▸ hq⟩
      · refine ⟨r₁, ⟨bs, hbs, hrun₁⟩, hsame, ?_⟩
        intro wp' hwp' hruns' hno'
        rcases List.mem_cons.mp hwp' with rfl | hmem
        · exact absurd ⟨hruns', hno'⟩ hgood
        · exact hdrained wp' hmem hruns' hno'

/-- **From every state an interleaving leads to, unless a null symbol has been
met: by the publisher's own steps and the sessions' handlers alone, everything
that is queued for the publisher is taken, and every session whose strand is
not in the middle of a message, and none of whose writes has failed, is written
all that was taken for it.** -/
theorem relay_catches_up {cfg : Str} {as : List (RelayAction ω)} {r : Relay ω}
    (hrun : Runs.run (relayStep parseJson) (.start cfg) as = some r)
    (hfault : r.publishing.system.fault = false) :
    ∃ r', Runs.Leads (relayStep parseJson) RelayAction.Own r r' ∧
      r'.publishing.system = r.publishing.system ∧ r'.publishing.pc = .waiting ∧
      r'.publishing.spscQueue.items = [] ∧
      r'.publishing.popped = r.publishing.popped ++ r.publishing.spscQueue.items ∧
      ∀ wp, (r.publishing.system.pc wp.address).inOnRead = false →
        ¬ FailedWrite (as.filterMap RelayAction.onWire) wp →
        (r'.wire.conn wp).written = (ticksFor r'.publishing.turns wp).map Prod.snd := by
  obtain ⟨r₁, ⟨bs, hbs, hrun₁⟩, hpc, hsystem, hnone, hpopped⟩ := publisher_catches_up hrun hfault
  have hall₁ := (Runs.run_append_of_run hrun bs).trans hrun₁
  obtain ⟨r', ⟨cs, hcs, hrun'⟩, hsame, hdrained⟩ :=
    drain_sessions (r₁.publishing.turns.flatMap Turn.locked) hall₁
  have hall : Runs.run (relayStep parseJson) (.start cfg) ((as ++ bs) ++ cs) = some r' :=
    (Runs.run_append_of_run hall₁ cs).trans hrun'
  refine ⟨r', .trans ⟨bs, hbs, hrun₁⟩ ⟨cs, hcs, hrun'⟩, hsame ▸ hsystem, hsame ▸ hpc,
    hsame ▸ hnone, hsame ▸ hpopped, ?_⟩
  intro wp hreading hno
  have hcarried := carried_of_run hall wp
  by_cases hmem : wp ∈ r₁.publishing.turns.flatMap Turn.locked
  · have hruns : r₁.wire.runs wp = true := by
      show (!r₁.publishing.system.fault && !(r₁.publishing.system.pc wp.address).inOnRead) = true
      rw [hsystem, hfault, hreading]
      rfl
    obtain ⟨hposted, hqueue⟩ := hdrained wp hmem hruns (not_failedWrite_own hno hbs)
    rwa [hposted, hqueue, List.append_nil, List.append_nil] at hcarried
  · -- no turn has come to the session
    have hticks : ticksFor r'.publishing.turns wp = [] := by
      rw [hsame, ticksFor, List.map_eq_nil_iff, List.filter_eq_nil_iff]
      intro t ht hlock
      exact hmem (List.mem_flatMap.mpr
        ⟨t, ht, List.mem_map_of_mem (List.contains_iff_mem.mp hlock)⟩)
    rw [hticks] at hcarried ⊢
    exact (List.append_eq_nil_iff.mp (List.append_eq_nil_iff.mp hcarried).1).1

end Steps

/-- The first client of `messageToSession` is written its tick. -/
def tickToClient : List (RelayAction Nat) :=
  messageToSession.map RelayAction.feed ++ [.onSend ⟨0, 1⟩, .onWrite ⟨0, 1⟩ 0 false]

theorem relay_delivers_one_client :
    ∃ r : Relay Nat, Runs.run (relayStep clientParser) (.start twoTopics) tickToClient = some r ∧
      (r.wire.conn ⟨0, 1⟩).written = ["3,101.5".toList] ∧
      (r.wire.conn ⟨0, 1⟩).written ++ (r.wire.conn ⟨0, 1⟩).queue ++ r.wire.posted ⟨0, 1⟩ =
        (ticksFor r.publishing.turns ⟨0, 1⟩).map Prod.snd ∧
      (ticksFor r.publishing.turns ⟨0, 1⟩).Sublist
        [("ETH-USD".toList, "3,101.5".toList)] ∧
      r.publishing.finished ≠ [] ∧
      ∀ t ∈ r.publishing.finished, ⟨0, 1⟩ ∈ t.members → (⟨0, 1⟩, true) ∈ t.locks := by
  have hrun : Runs.run (relayStep clientParser) (.start twoTopics) tickToClient = some _ := rfl
  obtain ⟨hcarried, hconsumed, -, hlacksNone⟩ := relay_delivers hrun ⟨0, 1⟩
  refine ⟨_, hrun, by decide, hcarried, hconsumed, List.cons_ne_nil _ _, ?_⟩
  intro t ht hmember
  exact (hlacksNone rfl t ht hmember).1

/-- The message is consumed, and the publisher has not looked yet. -/
def tickWaiting : List (RelayAction Nat) :=
  (messageToSession.take 8).map RelayAction.feed

theorem relay_catches_up_one_client :
    ∃ r r' : Relay Nat, Runs.run (relayStep clientParser) (.start twoTopics) tickWaiting = some r ∧
      r.publishing.spscQueue.items = [("ETH-USD".toList, "3,101.5".toList)] ∧
      Runs.Leads (relayStep clientParser) RelayAction.Own r r' ∧
      r'.publishing.popped = [("ETH-USD".toList, "3,101.5".toList)] ∧
      (r'.wire.conn ⟨0, 1⟩).written = (ticksFor r'.publishing.turns ⟨0, 1⟩).map Prod.snd := by
  have hrun : Runs.run (relayStep clientParser) (.start twoTopics) tickWaiting = some _ := rfl
  obtain ⟨r', hleads, -, -, -, hpopped, hwritten⟩ := relay_catches_up hrun rfl
  refine ⟨_, r', hrun, by decide, hleads, hpopped.trans (by decide), hwritten ⟨0, 1⟩ rfl ?_⟩
  rintro ⟨i, hi⟩
  revert hi
  simp [tickWaiting, messageToSession, RelayAction.onWire, FeedAction.publish]

end SravzBackend.Web
