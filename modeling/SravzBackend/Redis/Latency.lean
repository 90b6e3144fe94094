/-
# `Redis.Latency` — how long a datapoint is under way

`parse` and `publish` take from their queues with `get_message_with_backoff_`,
so each may sleep for up to 32 s while messages come in.  Time passes while
both sleep; an iteration takes none.

`uploader_keeps_up`: at a rate of messages that fits one queue over 64 s,
nothing is ever turned away by either queue, and `publish` has handled all
that came of the messages received more than 64 s ago.
-/
import SravzBackend.Backoff
import SravzBackend.Redis.Pipeline

namespace SravzBackend.Redis

/-! ## The pipeline in time -/

/-- The pipeline, with the calls of `get_message_with_backoff_` in `parse` and
in `publish`. -/
structure Paced where
  pipeline : Pipeline
  parse : Backoff
  publish : Backoff

def Paced.start : Paced := ⟨.start, .start, .start⟩

inductive PacedAction where
  | loop (a : PipelineAction)
  | second
  | parseInterrupted
  | publishInterrupted

namespace PacedAction

def isSecond : PacedAction → Bool
  | second => true
  | _ => false

def message : PacedAction → Option Str
  | loop (.onMessage msg) => some msg
  | _ => none

def isMessage (a : PacedAction) : Bool := a.message.isSome

/-- The messages received, oldest first. -/
def messages (as : List PacedAction) : List Str := as.filterMap message

theorem length_messages (as : List PacedAction) :
    (messages as).length = as.countP isMessage :=
  List.length_filterMap_eq_countP

theorem messages_append (as bs : List PacedAction) :
    messages (as ++ bs) = messages as ++ messages bs :=
  List.filterMap_append

theorem messages_concat_of_none (as : List PacedAction) {a : PacedAction} (h : a.message = none) :
    messages (as ++ [a]) = messages as := by
  rw [messages_append, show messages [a] = [] from List.filterMap_cons_none h, List.append_nil]

theorem not_isMessage_of_isSecond (a : PacedAction) (h : a.isSecond = true) :
    ¬ a.isMessage = true := by
  cases a <;> cases h
  exact Bool.false_ne_true

end PacedAction

open PacedAction

variable (parseJson : JsonParser) (info : Bool)

/-- A loop runs while it does not sleep. -/
def Paced.awake (x : Paced) : PipelineAction → Bool
  | .onMessage _ => true
  | .parse => x.parse.asleep == 0
  | .publish => x.publish.asleep == 0

/-- After an iteration that has found the queue as it is in `x`. -/
def Paced.after (x : Paced) (p : Pipeline) : PipelineAction → Paced
  | .onMessage _ => { x with pipeline := p }
  | .parse =>
      { x with pipeline := p, parse := x.parse.polled x.pipeline.spscQueueParse.items.isEmpty }
  | .publish =>
      { x with
        pipeline := p
        publish := x.publish.polled x.pipeline.spscQueuePublish.items.isEmpty }

def pacedStep (ok : Nat → Bool) (x : Paced) : PacedAction → Option Paced
  | .loop a =>
      if x.awake a then (pipelineStep parseJson info ok x.pipeline a).map (x.after · a) else none
  | .second =>
      if 0 < x.parse.asleep ∧ 0 < x.publish.asleep then
        some { x with parse := x.parse.second, publish := x.publish.second }
      else none
  | .parseInterrupted =>
      if 0 < x.parse.asleep then some { x with parse := x.parse.interrupted } else none
  | .publishInterrupted =>
      if 0 < x.publish.asleep then some { x with publish := x.publish.interrupted } else none

variable {parseJson info} {ok : Nat → Bool}

/-! ## Where there is room -/

theorem pushParse_room {p : Pipeline} (hbefore : p.overflowed = false)
    (hroom : p.spscQueueParse.items.length < 1024) (msg : Str) :
    (p.pushParse msg).overflowed = false := by
  show (p.overflowed || !(p.spscQueueParse.push msg).2) = false
  rw [hbefore, (BoundedQueue.push_of_room hroom msg).2]
  rfl

theorem parse_room {p : Pipeline} (hbefore : p.overflowed = false)
    (hroom : p.spscQueueParse.items.length + p.spscQueuePublish.items.length ≤ 1024) :
    (p.parse parseJson info).overflowed = false := by
  unfold Pipeline.parse
  cases hpop : p.spscQueueParse.pop with
  | none => exact hbefore
  | some r =>
      obtain ⟨msg, queue⟩ := r
      rw [BoundedQueue.pop_eq_some.mp hpop, List.length_cons] at hroom
      have hpublish : p.spscQueuePublish.items.length < 1024 := by omega
      cases hiter : parseIteration parseJson info p.lastTimestamp msg with
      | mk last outcome =>
          simp only [hiter]
          cases outcome with
          | pushed obj =>
              show (p.overflowed || !(p.spscQueuePublish.push obj).2) = false
              rw [hbefore, (BoundedQueue.push_of_room hpublish obj).2]
              rfl
          | stale => exact hbefore
          | rejected e => exact hbefore

theorem parseStage_length_le (last : Int) (msg : Str) :
    (parseStage parseJson info last msg).2.length ≤ 1 := by
  unfold parseStage
  rcases parseIteration parseJson info last msg with ⟨last', _ | _ | _⟩
  · exact Nat.le_refl 1
  · exact Nat.zero_le 1
  · exact Nat.zero_le 1

/-! ## What waits is recent -/

/-- The flow through the pipeline, with all that came of `through` published. -/
def Past (parseJson : JsonParser) (info : Bool) (ok : Nat → Bool) (msgs through : List Str)
    (p : Pipeline) : Prop :=
  Stages.FlowPast (parseStage parseJson info) (publishSink info ok) 0 (some .start) msgs through
    p.line

/-- Nothing has been turned away; what waits for `parse` was received within
one sleep, and what `publish` has not handled within two. -/
structure Paced.KeepsUp (parseJson : JsonParser) (info : Bool) (ok : Nat → Bool)
    (as : List PacedAction) (x : Paced) : Prop where
  room : x.pipeline.overflowed = false
  parse : Rate.Lately isSecond longestSleep as x.parse.asleep fun _ recent =>
    x.pipeline.spscQueueParse.items.length ≤ recent.countP isMessage
  publish : Rate.Lately isSecond (longestSleep + longestSleep) as x.publish.asleep fun old _ =>
    Past parseJson info ok (messages as) (messages old) x.pipeline

theorem paced_start : Paced.start.KeepsUp parseJson info ok [] :=
  ⟨rfl, Rate.lately_renew (Nat.le_refl 0) (Nat.zero_le _),
    Rate.lately_renew Stages.flowPast_start (Nat.zero_le _)⟩

section Step

variable {w b : Nat} {as : List PacedAction} {x : Paced}

/-- What waits in the two queues was received within two sleeps. -/
theorem Paced.KeepsUp.waiting (h : x.KeepsUp parseJson info ok as) :
    Rate.Lately isSecond (longestSleep + longestSleep) as x.publish.asleep fun _ recent =>
      x.pipeline.spscQueueParse.items.length + x.pipeline.spscQueuePublish.items.length ≤
        recent.countP isMessage := by
  refine h.publish.imp fun old recent has hpast => ?_
  rw [has, messages_append] at hpast
  rw [← length_messages]
  exact Stages.FlowPast.length_le parseStage_length_le hpast

theorem Paced.KeepsUp.onMessage
    (hroom : b * ((longestSleep + longestSleep) / (w + 1) + 1) ≤ 1024) {msg : Str}
    (hrate : Rate.AtMost isSecond isMessage w b (as ++ [.loop (.onMessage msg)]))
    (h : x.KeepsUp parseJson info ok as) :
    (x.after (x.pipeline.pushParse msg) (.onMessage msg)).KeepsUp parseJson info ok
      (as ++ [.loop (.onMessage msg)]) := by
  have hquiet : [loop (.onMessage msg)].countP isSecond = 0 := rfl
  have hfits : x.pipeline.spscQueueParse.items.length < 1024 := by
    have hone : Rate.Lately isSecond (longestSleep + longestSleep)
        (as ++ [loop (.onMessage msg)]) x.publish.asleep fun _ recent =>
          x.pipeline.spscQueueParse.items.length + x.pipeline.spscQueuePublish.items.length + 1 ≤
            recent.countP isMessage := by
      refine h.waiting.concat (by rw [hquiet, Nat.zero_add]) fun old recent _ hwaiting => ?_
      rw [List.countP_append]
      exact Nat.succ_le_succ hwaiting
    obtain ⟨_, recent, _, hwaiting, hbound⟩ := hone.countP_le not_isMessage_of_isSecond hrate
    omega
  have hover := pushParse_room h.room hfits msg
  refine ⟨hover, ?_, ?_⟩
  · refine h.parse.concat (by rw [hquiet, Nat.zero_add]; rfl) fun old recent _ hparse => ?_
    show (x.pipeline.spscQueueParse.push msg).1.items.length ≤ _
    rw [(BoundedQueue.push_of_room hfits msg).1, List.length_append, List.countP_append]
    exact Nat.succ_le_succ hparse
  · refine h.publish.concat (by rw [hquiet, Nat.zero_add]; rfl) fun old recent _ hpast => ?_
    show Stages.FlowPast _ _ _ _ _ _ (x.pipeline.pushParse msg).line
    rw [(pushParse_line hover).2, messages_append]
    exact hpast.put msg

theorem Paced.KeepsUp.parseIteration
    (hroom : b * ((longestSleep + longestSleep) / (w + 1) + 1) ≤ 1024)
    (hrate : Rate.AtMost isSecond isMessage w b as) (h : x.KeepsUp parseJson info ok as) :
    (x.after (x.pipeline.parse parseJson info) .parse).KeepsUp parseJson info ok
      (as ++ [.loop .parse]) := by
  obtain ⟨_, recent, _, hwaiting, hbound⟩ := h.waiting.countP_le not_isMessage_of_isSecond hrate
  have hover : (x.pipeline.parse parseJson info).overflowed = false :=
    parse_room h.room (hwaiting.trans (hbound.trans hroom))
  have hline := (parse_line hover).2
  have hitems : (x.pipeline.parse parseJson info).spscQueueParse.items =
      x.pipeline.spscQueueParse.items.tail := by
    show (x.pipeline.parse parseJson info).line.inbox = x.pipeline.line.inbox.tail
    rw [hline, Stages.Line.advance_inbox]
  refine ⟨hover, ?_, ?_⟩
  · show Rate.Lately _ _ _ (x.parse.polled x.pipeline.spscQueueParse.items.isEmpty).asleep
      fun _ recent => (x.pipeline.parse parseJson info).spscQueueParse.items.length ≤
        recent.countP isMessage
    rw [hitems]
    cases hqueue : x.pipeline.spscQueueParse.items with
    | nil => exact Rate.lately_renew (Nat.le_refl 0) x.parse.sleep.bounded
    | cons msg rest =>
        refine h.parse.concat (Nat.zero_le _) fun old recent _ hparse => ?_
        rw [hqueue] at hparse
        rw [List.countP_append]
        exact (Nat.le_of_succ_le hparse).trans (Nat.le_add_right _ _)
  · refine h.publish.concat (Nat.le_of_eq (Nat.zero_add _)) fun old recent _ hpast => ?_
    show Stages.FlowPast _ _ _ _ _ _ (x.pipeline.parse parseJson info).line
    rw [hline, messages_concat_of_none as rfl]
    exact hpast.advance

theorem Paced.KeepsUp.publishIteration (h : x.KeepsUp parseJson info ok as) :
    (x.after (x.pipeline.publish info ok) .publish).KeepsUp parseJson info ok
      (as ++ [.loop .publish]) := by
  obtain ⟨hover, hline⟩ := publish_line info ok x.pipeline
  have hitems : (x.pipeline.publish info ok).spscQueueParse.items =
      x.pipeline.spscQueueParse.items := by
    show (x.pipeline.publish info ok).line.inbox = x.pipeline.line.inbox
    rw [hline, Stages.Line.drain_inbox]
  refine ⟨hover.trans h.room, ?_, ?_⟩
  · refine h.parse.concat (Nat.le_of_eq (Nat.zero_add _)) fun old recent _ hparse => ?_
    show (x.pipeline.publish info ok).spscQueueParse.items.length ≤ _
    rw [hitems, List.countP_append]
    exact hparse.trans (Nat.le_add_right _ _)
  · show Rate.Lately _ _ _ (x.publish.polled x.pipeline.spscQueuePublish.items.isEmpty).asleep
      fun old _ => Stages.FlowPast _ _ _ _ _ _ (x.pipeline.publish info ok).line
    rw [hline, messages_concat_of_none as rfl]
    cases hqueue : x.pipeline.spscQueuePublish.items with
    | nil =>
        -- nothing is left between the loops: what `parse` has handled is through
        have hbetween : x.pipeline.line.between = [] := hqueue
        rw [Stages.Line.drain_of_empty hbetween]
        obtain ⟨_, _, _, hpast, _⟩ := h.publish
        refine (h.parse.later x.publish.sleep.bounded).concat (Nat.le_of_eq (Nat.zero_add _))
          fun old recent has hparse => ?_
        refine hpast.renew hbetween (by rw [has, messages_append]) ?_
        rw [length_messages]
        exact hparse
    | cons obj rest =>
        refine h.publish.concat (Nat.zero_le _) fun old recent _ hpast => ?_
        exact hpast.drain

/-- A step that only lets time go by. -/
theorem Paced.KeepsUp.quiet (h : x.KeepsUp parseJson info ok as) {a : PacedAction}
    (hmessage : a.message = none) {parse publish : Backoff}
    (hparse : [a].countP isSecond + parse.asleep ≤ x.parse.asleep)
    (hpublish : [a].countP isSecond + publish.asleep ≤ x.publish.asleep) :
    (Paced.mk x.pipeline parse publish).KeepsUp parseJson info ok (as ++ [a]) := by
  refine ⟨h.room, ?_, ?_⟩
  · refine h.parse.concat hparse fun old recent _ hparse => ?_
    rw [List.countP_append]
    exact hparse.trans (Nat.le_add_right _ _)
  · refine h.publish.concat hpublish fun old recent _ hpast => ?_
    rw [messages_concat_of_none as hmessage]
    exact hpast

theorem paced_step (hroom : b * ((longestSleep + longestSleep) / (w + 1) + 1) ≤ 1024)
    {a : PacedAction} {x' : Paced} (hrate : Rate.AtMost isSecond isMessage w b (as ++ [a]))
    (h : x.KeepsUp parseJson info ok as) (hstep : pacedStep parseJson info ok x a = some x') :
    x'.KeepsUp parseJson info ok (as ++ [a]) := by
  cases a with
  | loop a =>
      obtain ⟨hawake, hloop⟩ := Option.ite_none_right_eq_some.mp hstep
      obtain ⟨p, hp, rfl⟩ := Option.map_eq_some_iff.mp hloop
      unfold pipelineStep at hp
      split at hp
      · cases hp
      · cases a with
        | onMessage msg =>
            cases hp
            exact h.onMessage hroom hrate
        | parse =>
            cases hp
            exact h.parseIteration hroom (hrate.mono (List.prefix_append as _).isInfix)
        | publish =>
            cases hp
            exact h.publishIteration
  | second =>
      obtain ⟨⟨hparse, hpublish⟩, rfl⟩ := Option.ite_some_none_eq_some.mp hstep
      refine h.quiet rfl ?_ ?_
      · show 1 + (x.parse.asleep - 1) ≤ x.parse.asleep
        omega
      · show 1 + (x.publish.asleep - 1) ≤ x.publish.asleep
        omega
  | parseInterrupted =>
      obtain ⟨_, rfl⟩ := Option.ite_some_none_eq_some.mp hstep
      exact h.quiet rfl (Nat.zero_le _) (Nat.le_of_eq (Nat.zero_add _))
  | publishInterrupted =>
      obtain ⟨_, rfl⟩ := Option.ite_some_none_eq_some.mp hstep
      exact h.quiet rfl (Nat.le_of_eq (Nat.zero_add _)) (Nat.zero_le _)

end Step

theorem paced_run {w b : Nat} (hroom : b * ((longestSleep + longestSleep) / (w + 1) + 1) ≤ 1024)
    {as : List PacedAction} {x : Paced} (hrate : Rate.AtMost isSecond isMessage w b as)
    (hrun : Runs.run (pacedStep parseJson info ok) .start as = some x) :
    x.KeepsUp parseJson info ok as := by
  refine Runs.run_inv_history
    (P := fun as x => Rate.AtMost isSecond isMessage w b as → x.KeepsUp parseJson info ok as)
    (fun _ => paced_start) ?_ hrun hrate
  intro pre x a x' _ h hstep hrate
  exact paced_step hroom hrate (h (hrate.mono (List.prefix_append pre [a]).isInfix)) hstep

/-- **At a rate of messages that fits one queue over two of the longest
sleeps: in every run, however the messages, the iterations, the seconds and
signals are interleaved, neither queue turns anything away, and `publish` is
where the first of the datapoints take it, all those among them that came of
messages received more than 64 s ago.** -/
theorem uploader_keeps_up {w b : Nat} (hroom : b * (64 / (w + 1) + 1) ≤ 1024)
    {as : List PacedAction} {x : Paced} (hrate : Rate.AtMost isSecond isMessage w b as)
    (hrun : Runs.run (pacedStep parseJson info ok) .start as = some x) :
    x.pipeline.overflowed = false ∧
      ∃ taken st, x.pipeline.publisher = some st ∧
        Runs.run (publishNext info ok) .start taken = some st ∧
        taken <+: pushed parseJson info 0 (messages as) ∧
        ∀ old recent, as = old ++ recent → 64 < recent.countP isSecond →
          pushed parseJson info 0 (messages old) <+: taken := by
  have hkeeps : x.KeepsUp parseJson info ok as := paced_run hroom hrate hrun
  have hmono : ∀ {msgs msgs' : List Str}, msgs <+: msgs' →
      pushed parseJson info 0 msgs <+: pushed parseJson info 0 msgs' := by
    intro msgs msgs' h
    have hfeed := Stages.feed_prefix (parseStage parseJson info) 0 h
    rwa [feed_parseStage, feed_parseStage] at hfeed
  obtain ⟨through, _, _, ⟨handled, taken, ⟨hinput, hfeed, hsunk⟩, _, hthrough⟩, hold⟩ :=
    hkeeps.publish.prefix_old
  rw [feed_parseStage] at hfeed hthrough
  rw [foldl_publishSink] at hsunk
  have htaken : taken <+: pushed parseJson info 0 (messages as) := by
    have hbetween : taken <+: pushed parseJson info 0 handled :=
      ⟨_, (congrArg Prod.snd hfeed).symm⟩
    exact hbetween.trans (hmono (hinput ▸ List.prefix_append handled _))
  obtain ⟨st, hst⟩ : ∃ st, Runs.run (publishNext info ok) .start taken = some st := by
    obtain ⟨last, hlast⟩ := sequential_publisher parseJson info ok (messages as)
    obtain ⟨rest, hrest⟩ := htaken
    unfold sequential at hlast
    rw [← hrest] at hlast
    obtain ⟨st, hst, _⟩ := Runs.run_append_eq_some.mp hlast
    exact ⟨st, hst⟩
  refine ⟨hkeeps.room, taken, st, hsunk.symm.trans hst, hst, htaken, ?_⟩
  intro old recent has hlong
  exact (hmono ((hold old recent has hlong).filterMap message)).trans hthrough

/-- One message; the loops find nothing for 66 s after it. -/
def thenSilence : List PacedAction :=
  [.loop (.onMessage ethTick), .loop .parse, .loop .publish] ++
    (List.range 8).flatMap fun i =>
      [.loop .parse, .loop .publish] ++ List.replicate (1 <<< (i % 6)) .second

theorem uploader_keeps_up_one_message :
    ∃ x, Runs.run (pacedStep feed true fun _ => true) .start thenSilence = some x ∧
      x.pipeline.overflowed = false ∧
      ∃ taken st, x.pipeline.publisher = some st ∧
        Runs.run (publishNext true fun _ => true) .start taken = some st ∧
        pushed feed true 0 [ethTick] <+: taken := by
  have hrun : Runs.run (pacedStep feed true fun _ => true) .start thenSilence = some _ := rfl
  have hrate : Rate.AtMost isSecond isMessage 64 1 thenSilence := fun bs hbs _ =>
    hbs.sublist.countP_le.trans (by decide)
  obtain ⟨hover, taken, st, hpublisher, hst, _, hold⟩ :=
    uploader_keeps_up (by decide) hrate hrun
  exact ⟨_, hrun, hover, taken, st, hpublisher, hst,
    hold [.loop (.onMessage ethTick)] _ rfl (by decide)⟩

end SravzBackend.Redis
