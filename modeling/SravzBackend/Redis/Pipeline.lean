/-
# `Redis.Pipeline` — the three loops of `RedisSubscriber`

`run` posts `subscribe`, `parse` and `publish` to one thread pool.  The
callback of `subscribe` pushes what it receives to `spsc_queue_parse_`,
`parse` takes from there and pushes to `spsc_queue_publish_`, and `publish`
takes from there; each loop backs off while its queue is empty.  A step is one
call of the callback or one iteration of a loop, so a run is an interleaving of
the three.

As long as no push finds its queue full, `parse` and `publish` are a stage and
a sink of `Lib.Stages`, and `pipeline_deterministic` follows: with both queues
drained, two runs over the same messages have sent the same commands and hold
the same locals, those of `parse` run over all the messages and then `publish`
over all it pushed.
-/
import SravzBackend.Lib.BoundedQueue
import SravzBackend.Lib.Stages
import SravzBackend.Redis.Publish

namespace SravzBackend.Redis

variable (parseJson : JsonParser) (info : Bool)

/-! ## The loops, interleaved -/

/-- One iteration of `publish`, where `ok i` is what the `i`-th command comes
to. -/
def publishNext (ok : Nat → Bool) (st : Publisher) (obj : Object) : Option Publisher :=
  publishIteration info st (obj, ok st.commands.length)

/-- The two queues and the locals of the two loops: `msg` and `lastTimestamp`
of `parse`, `obj` and the rest of `publish`, which is `none` once the log
statement of `publish` has thrown; nothing catches that, and nothing moves
after it.  `overflowed` is set when a push has found its queue full. -/
structure Pipeline where
  spscQueueParse : BoundedQueue Str 1024
  msg : Str
  lastTimestamp : Int
  spscQueuePublish : BoundedQueue Object 1024
  obj : Object
  publisher : Option Publisher
  overflowed : Bool

def Pipeline.start : Pipeline := ⟨.empty, [], 0, .empty, [], some .start, false⟩

inductive PipelineAction where
  | onMessage (msg : Str)
  | parse
  | publish

/-- `spsc_queue_parse_.push(msg)` -/
def Pipeline.pushParse (p : Pipeline) (msg : Str) : Pipeline :=
  let (queue, pushed) := p.spscQueueParse.push msg
  { p with spscQueueParse := queue, overflowed := p.overflowed || !pushed }

/-- `spsc_queue_publish_.push(obj)` -/
def Pipeline.pushPublish (p : Pipeline) (obj : Object) : Pipeline :=
  let (queue, pushed) := p.spscQueuePublish.push obj
  { p with spscQueuePublish := queue, overflowed := p.overflowed || !pushed }

/-- An iteration of `parse`; on an empty queue it backs off. -/
def Pipeline.parse (p : Pipeline) : Pipeline :=
  match p.spscQueueParse.pop with
  | none => p
  | some (msg, queue) =>
      let (last, outcome) := parseIteration parseJson info p.lastTimestamp msg
      let p := { p with spscQueueParse := queue, msg := msg, lastTimestamp := last }
      match outcome with
      | .pushed obj => p.pushPublish obj
      | .stale => p
      | .rejected _ => p

/-- An iteration of `publish`; on an empty queue it backs off. -/
def Pipeline.publish (ok : Nat → Bool) (p : Pipeline) : Pipeline :=
  match p.spscQueuePublish.pop with
  | none => p
  | some (obj, queue) =>
      { p with
        spscQueuePublish := queue
        obj := obj
        publisher := p.publisher.bind fun st => publishNext info ok st obj }

def pipelineStep (ok : Nat → Bool) (p : Pipeline) (a : PipelineAction) : Option Pipeline :=
  match p.publisher with
  | none => none
  | some _ =>
      match a with
      | .onMessage msg => some (p.pushParse msg)
      | .parse => some (p.parse parseJson info)
      | .publish => some (p.publish info ok)

/-- The messages received, oldest first. -/
def received (as : List PipelineAction) : List Str :=
  as.filterMap fun a =>
    match a with
    | .onMessage msg => some msg
    | .parse => none
    | .publish => none

/-! ## The loops, one after the other -/

/-- `parse` over all the messages and then `publish` over all it pushed:
`last_timestamp` and the locals of `publish`. -/
def sequential (ok : Nat → Bool) (msgs : List Str) : Int × Option Publisher :=
  (lastTimestamp parseJson info 0 msgs,
    Runs.run (publishNext info ok) .start (pushed parseJson info 0 msgs))

/-! ## A stage and a sink -/

/-- An iteration of `parse` as a stage. -/
def parseStage (last : Int) (msg : Str) : Int × List Object :=
  match parseIteration parseJson info last msg with
  | (last, .pushed obj) => (last, [obj])
  | (last, .stale) => (last, [])
  | (last, .rejected _) => (last, [])

/-- An iteration of `publish` as a sink. -/
def publishSink (ok : Nat → Bool) (st : Option Publisher) (obj : Object) : Option Publisher :=
  st.bind fun st => publishNext info ok st obj

/-- The pipeline without the bounds of its queues and the variables that the
next iteration overwrites. -/
def Pipeline.line (p : Pipeline) : Stages.Line Str Object Int (Option Publisher) :=
  ⟨p.spscQueueParse.items, p.lastTimestamp, p.spscQueuePublish.items, p.publisher⟩

variable {parseJson info} {ok : Nat → Bool}

theorem feed_parseStage (last : Int) (msgs : List Str) :
    Stages.feed (parseStage parseJson info) last msgs =
      (lastTimestamp parseJson info last msgs, pushed parseJson info last msgs) := by
  induction msgs generalizing last with
  | nil => rfl
  | cons msg msgs ih =>
      simp only [Stages.feed, ih, lastTimestamp, pushed, parseStage]
      rcases parseIteration parseJson info last msg with ⟨last', _ | _ | _⟩ <;> rfl

theorem foldl_publishSink (st : Publisher) (objs : List Object) :
    objs.foldl (publishSink info ok) (some st) = Runs.run (publishNext info ok) st objs := by
  have hnone : ∀ objs : List Object, objs.foldl (publishSink info ok) none = none := by
    intro objs
    induction objs with
    | nil => rfl
    | cons obj objs ih => exact ih
  induction objs generalizing st with
  | nil => rfl
  | cons obj objs ih =>
      rw [List.foldl_cons, Runs.run_cons]
      show objs.foldl (publishSink info ok) (publishNext info ok st obj) = _
      cases publishNext info ok st obj with
      | none => exact hnone objs
      | some st' => exact ih st'

/-! ### What `parse` pushes, `publish` can log -/

theorem logDatapoint_of_pushed {last : Int} {msg : Str} {obj : Object}
    (h : (parseIteration parseJson info last msg).2 = .pushed obj) :
    logDatapoint info obj = .ok () := by
  unfold parseIteration at h
  split at h
  · cases h
  · split at h
    · cases h
    · split at h
      · cases h
      · next hlog =>
          cases h
          exact hlog

theorem logDatapoint_of_mem_pushed {msgs : List Str} {last : Int} {obj : Object}
    (h : obj ∈ pushed parseJson info last msgs) : logDatapoint info obj = .ok () := by
  induction msgs generalizing last with
  | nil => exact absurd h List.not_mem_nil
  | cons msg msgs ih =>
      simp only [pushed] at h
      split at h
      · next hout =>
          rcases List.mem_cons.mp h with rfl | h
          · exact logDatapoint_of_pushed hout
          · exact ih h
      · exact ih h
      · exact ih h

variable (parseJson info) in
/-- Run one after the other, `publish` gets through all that `parse` pushes. -/
theorem sequential_publisher (ok : Nat → Bool) (msgs : List Str) :
    ∃ st, (sequential parseJson info ok msgs).2 = some st := by
  refine Runs.run_total ?_ Publisher.start
  intro st obj hobj
  refine ⟨st.tryPublish (ok st.commands.length) obj, ?_⟩
  simp only [publishNext, publishIteration, logDatapoint_of_mem_pushed hobj]

/-! ## Every step moves an item along -/

theorem pushParse_line {p : Pipeline} {msg : Str} (h : (p.pushParse msg).overflowed = false) :
    p.overflowed = false ∧ (p.pushParse msg).line = p.line.put msg := by
  have hover : (p.overflowed || !(p.spscQueueParse.push msg).2) = false := h
  obtain ⟨hbefore, hpushed⟩ := Bool.or_eq_false_iff.mp hover
  refine ⟨hbefore, ?_⟩
  have hitems := BoundedQueue.push_of_pushed (by simpa using hpushed)
  show Stages.Line.mk (p.spscQueueParse.push msg).1.items _ _ _ = _
  rw [hitems]
  rfl

theorem pushPublish_line {p : Pipeline} {obj : Object}
    (h : (p.pushPublish obj).overflowed = false) :
    p.overflowed = false ∧
      (p.pushPublish obj).line = { p.line with between := p.line.between ++ [obj] } := by
  have hover : (p.overflowed || !(p.spscQueuePublish.push obj).2) = false := h
  obtain ⟨hbefore, hpushed⟩ := Bool.or_eq_false_iff.mp hover
  refine ⟨hbefore, ?_⟩
  have hitems := BoundedQueue.push_of_pushed (by simpa using hpushed)
  show Stages.Line.mk _ _ (p.spscQueuePublish.push obj).1.items _ = _
  rw [hitems]
  rfl

theorem parse_line {p : Pipeline} (h : (p.parse parseJson info).overflowed = false) :
    p.overflowed = false ∧
      (p.parse parseJson info).line = p.line.advance (parseStage parseJson info) := by
  unfold Pipeline.parse at h ⊢
  cases hpop : p.spscQueueParse.pop with
  | none =>
      rw [hpop] at h
      refine ⟨h, ?_⟩
      rw [Stages.Line.advance, show p.line.inbox = [] from BoundedQueue.pop_eq_none.mp hpop]
  | some r =>
      obtain ⟨msg, queue⟩ := r
      have hinbox : p.line.inbox = msg :: queue.items := BoundedQueue.pop_eq_some.mp hpop
      rw [Stages.Line.advance, hinbox]
      cases hiter : parseIteration parseJson info p.lastTimestamp msg with
      | mk last outcome =>
          have hstage : parseStage parseJson info p.line.state msg =
              match (last, outcome) with
              | (last, .pushed obj) => (last, [obj])
              | (last, .stale) => (last, [])
              | (last, .rejected _) => (last, []) := by
            rw [← hiter]
            rfl
          simp only [hpop, hiter] at h ⊢
          rw [hstage]
          cases outcome with
          | pushed obj => exact pushPublish_line h
          | stale => exact ⟨h, by simp only [Pipeline.line, List.append_nil]⟩
          | rejected e => exact ⟨h, by simp only [Pipeline.line, List.append_nil]⟩

variable (info ok) in
theorem publish_line (p : Pipeline) :
    (p.publish info ok).overflowed = p.overflowed ∧
      (p.publish info ok).line = p.line.drain (publishSink info ok) := by
  unfold Pipeline.publish
  cases hpop : p.spscQueuePublish.pop with
  | none =>
      refine ⟨rfl, ?_⟩
      rw [Stages.Line.drain, show p.line.between = [] from BoundedQueue.pop_eq_none.mp hpop]
  | some r =>
      obtain ⟨obj, queue⟩ := r
      have hbetween : p.line.between = obj :: queue.items := BoundedQueue.pop_eq_some.mp hpop
      refine ⟨rfl, ?_⟩
      rw [Stages.Line.drain, hbetween]
      rfl

/-- The flow through the pipeline, as long as nothing has overflowed. -/
def Flows (parseJson : JsonParser) (info : Bool) (ok : Nat → Bool) (msgs : List Str)
    (p : Pipeline) : Prop :=
  p.overflowed = false →
    Stages.Flow (parseStage parseJson info) (publishSink info ok) 0 (some .start) msgs p.line

theorem flows_run {as : List PipelineAction} {p : Pipeline}
    (hrun : Runs.run (pipelineStep parseJson info ok) .start as = some p) :
    Flows parseJson info ok (received as) p := by
  refine Runs.run_inv_history (P := fun as p => Flows parseJson info ok (received as) p)
    (fun _ => Stages.flow_start) ?_ hrun
  intro pre p a p' _ h hstep hroom
  have hreceived : received (pre ++ [a]) = received pre ++ received [a] :=
    List.filterMap_append
  rw [hreceived]
  unfold pipelineStep at hstep
  cases hpub : p.publisher with
  | none =>
      rw [hpub] at hstep
      cases hstep
  | some st =>
      rw [hpub] at hstep
      cases a with
      | onMessage msg =>
          cases hstep
          obtain ⟨hbefore, hline⟩ := pushParse_line hroom
          rw [hline]
          exact (h hbefore).put msg
      | parse =>
          cases hstep
          obtain ⟨hbefore, hline⟩ := parse_line hroom
          rw [hline, show received [.parse] = [] from rfl, List.append_nil]
          exact (h hbefore).advance
      | publish =>
          cases hstep
          obtain ⟨hover, hline⟩ := publish_line info ok p
          rw [hline, show received [.publish] = [] from rfl, List.append_nil]
          exact (h (hover ▸ hroom)).drain

/-- Nothing is left in the queues, and nothing was ever turned away. -/
structure Pipeline.Drained (p : Pipeline) : Prop where
  room : p.overflowed = false
  parse : p.spscQueueParse.items = []
  publish : p.spscQueuePublish.items = []

/-- A drained pipeline is where the loops, one after the other, end. -/
theorem drained_eq_sequential {as : List PipelineAction} {p : Pipeline}
    (hrun : Runs.run (pipelineStep parseJson info ok) .start as = some p) (h : p.Drained) :
    sequential parseJson info ok (received as) = (p.lastTimestamp, p.publisher) := by
  obtain ⟨hlast, hpub⟩ := (flows_run hrun h.room).drained h.parse h.publish
  rw [feed_parseStage] at hlast hpub
  rw [foldl_publishSink] at hpub
  exact (Prod.ext hlast hpub).symm

/-- **Two drained runs over the same messages, however interleaved, have sent
the same commands and hold the same `last_timestamp`, `result` and `count`:
those of the loops run one after the other.** -/
theorem pipeline_deterministic {as bs : List PipelineAction} {p q : Pipeline}
    (hsame : received as = received bs)
    (hp : Runs.run (pipelineStep parseJson info ok) .start as = some p)
    (hq : Runs.run (pipelineStep parseJson info ok) .start bs = some q)
    (hdp : p.Drained) (hdq : q.Drained) :
    ∃ last st, sequential parseJson info ok (received as) = (last, some st) ∧
      (p.lastTimestamp = last ∧ p.publisher = some st) ∧
      (q.lastTimestamp = last ∧ q.publisher = some st) := by
  obtain ⟨st, hst⟩ := sequential_publisher parseJson info ok (received as)
  have hseqp := drained_eq_sequential hp hdp
  have hseqq := drained_eq_sequential hq hdq
  rw [← hsame] at hseqq
  refine ⟨(sequential parseJson info ok (received as)).1, st, Prod.ext rfl hst, ?_, ?_⟩
  · rw [hseqp] at hst ⊢
    exact ⟨rfl, hst⟩
  · rw [hseqq] at hst ⊢
    exact ⟨rfl, hst⟩

/-- The loops take turns. -/
def lockstep : List PipelineAction :=
  [.onMessage ethTick, .parse, .publish, .onMessage btcTick, .parse, .publish]

/-- Both messages are there before the other two loops begin, and `publish`
backs off once. -/
def burst : List PipelineAction :=
  [.onMessage ethTick, .publish, .onMessage btcTick, .parse, .parse, .publish]

theorem pipeline_deterministic_two_schedules :
    ∃ p q : Pipeline,
      Runs.run (pipelineStep feed true fun _ => true) .start lockstep = some p ∧
      Runs.run (pipelineStep feed true fun _ => true) .start burst = some q ∧
      ∃ last st, sequential feed true (fun _ => true) (received lockstep) = (last, some st) ∧
        (p.lastTimestamp = last ∧ p.publisher = some st) ∧
        (q.lastTimestamp = last ∧ q.publisher = some st) := by
  have hlockstep : Runs.run (pipelineStep feed true fun _ => true) .start lockstep = some _ := rfl
  have hburst : Runs.run (pipelineStep feed true fun _ => true) .start burst = some _ := rfl
  exact ⟨_, _, hlockstep, hburst,
    pipeline_deterministic rfl hlockstep hburst ⟨rfl, rfl, rfl⟩ ⟨rfl, rfl, rfl⟩⟩

end SravzBackend.Redis
