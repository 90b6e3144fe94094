/-
# `Redis.Upload` — what reaches Redis of what was received

In every interleaving of the three loops of `RedisSubscriber`, with queues that
may overflow and commands that may fail, the datapoints that have been sent and
those that wait in `result` are some of those that were received:
`uploaded_in_order`.  None is made up, doubled or overtaken, their timestamps
do not fall, and `publish` is still running.

The queues lose items, so `parse` and `publish` are a stage and a sink of
`Lib.Stages` with losses; what `parse` lets through is in order by
`pushed_datapoints`.
-/
import SravzBackend.Redis.Pipeline

namespace SravzBackend.Redis

variable {parseJson : JsonParser} {info : Bool} {ok : Nat → Bool}

/-! ## The pipeline, with losses -/

/-- The flow through the pipeline, whatever has overflowed. -/
def LossyFlows (parseJson : JsonParser) (info : Bool) (ok : Nat → Bool) (msgs : List Str)
    (p : Pipeline) : Prop :=
  Stages.LossyFlow (parseStage parseJson info) (publishSink info ok) 0 (some .start) msgs p.line

theorem LossyFlows.pushParse {msgs : List Str} {p : Pipeline}
    (h : LossyFlows parseJson info ok msgs p) (msg : Str) :
    LossyFlows parseJson info ok (msgs ++ [msg]) (p.pushParse msg) := by
  show Stages.LossyFlow _ _ _ _ _ ⟨(p.spscQueueParse.push msg).1.items, _, _, _⟩
  rcases p.spscQueueParse.push_items msg with hitems | hitems
  · rw [hitems]
    exact h.put msg
  · rw [hitems]
    exact h.lose msg

theorem LossyFlows.parse {msgs : List Str} {p : Pipeline}
    (h : LossyFlows parseJson info ok msgs p) :
    LossyFlows parseJson info ok msgs (p.parse parseJson info) := by
  unfold Pipeline.parse
  cases hpop : p.spscQueueParse.pop with
  | none => exact h
  | some r =>
      obtain ⟨msg, queue⟩ := r
      have hinbox : p.line.inbox = msg :: queue.items := BoundedQueue.pop_eq_some.mp hpop
      have hadvance : ∀ out, out.Sublist (parseStage parseJson info p.lastTimestamp msg).2 →
          Stages.LossyFlow (parseStage parseJson info) (publishSink info ok) 0 (some .start) msgs
            ⟨queue.items, (parseStage parseJson info p.lastTimestamp msg).1,
              p.spscQueuePublish.items ++ out, p.publisher⟩ :=
        fun out hout => Stages.LossyFlow.advance h hinbox hout
      cases hiter : parseIteration parseJson info p.lastTimestamp msg with
      | mk last outcome =>
          unfold parseStage at hadvance
          simp only [hiter] at hadvance ⊢
          cases outcome with
          | pushed obj =>
              show Stages.LossyFlow _ _ _ _ _ ⟨_, _, (p.spscQueuePublish.push obj).1.items, _⟩
              rcases p.spscQueuePublish.push_items obj with hitems | hitems
              · rw [hitems]
                exact hadvance [obj] (List.Sublist.refl [obj])
              · rw [hitems, ← List.append_nil p.spscQueuePublish.items]
                exact hadvance [] (List.nil_sublist [obj])
          | stale =>
              have hnothing := hadvance [] (List.Sublist.refl [])
              rw [List.append_nil] at hnothing
              exact hnothing
          | rejected e =>
              have hnothing := hadvance [] (List.Sublist.refl [])
              rw [List.append_nil] at hnothing
              exact hnothing

theorem lossyFlows_run {as : List PipelineAction} {p : Pipeline}
    (hrun : Runs.run (pipelineStep parseJson info ok) .start as = some p) :
    LossyFlows parseJson info ok (received as) p := by
  have hstart : LossyFlows parseJson info ok (received []) .start := Stages.lossyFlow_start
  refine Runs.run_inv_history
    (P := fun as p => LossyFlows parseJson info ok (received as) p) hstart ?_ hrun
  intro pre p a p' _ h hstep
  have hreceived : received (pre ++ [a]) = received pre ++ received [a] :=
    List.filterMap_append
  rw [hreceived]
  unfold pipelineStep at hstep
  cases hpub : p.publisher with
  | none =>
      rw [hpub] at hstep
      cases hstep
  | some st =>
      rw [hpub] at hstep
      cases a with
      | onMessage msg =>
          cases hstep
          exact h.pushParse msg
      | parse =>
          cases hstep
          rw [show received [.parse] = [] from rfl, List.append_nil]
          exact h.parse
      | publish =>
          cases hstep
          rw [show received [.publish] = [] from rfl, List.append_nil]
          unfold LossyFlows
          rw [(publish_line info ok p).2]
          exact Stages.LossyFlow.drain h

/-! ## Datapoints -/

/-- The datapoints among the messages. -/
def datapoints (parseJson : JsonParser) (msgs : List Str) : List Datapoint :=
  msgs.filterMap fun msg => (datapoint parseJson msg).toOption

/-- A message with an integer `"t"` is a datapoint: it has strings `"s"` and
`"p"` as well. -/
def Whole (parseJson : JsonParser) (msg : Str) : Prop :=
  integerT parseJson msg ≠ none → ∃ d, datapoint parseJson msg = .ok d

/-- The object of a datapoint is one for `publish`. -/
theorem objectDatapoint_of_pushed {last last' : Int} {msg : Str} {obj : Object}
    (hwhole : Whole parseJson msg) (h : parseIteration parseJson info last msg = (last', .pushed obj)) :
    ∃ d, datapoint parseJson msg = .ok d ∧ objectDatapoint obj = .ok d ∧ d.t = last' := by
  unfold parseIteration at h
  split at h
  · cases h
  · next obj' cur hmsg =>
      split at h
      · cases h
      · split at h
        · cases h
        · cases h
          have hint : integerT parseJson msg ≠ none := by
            rw [integerT_eq_some.mpr ⟨_, hmsg⟩]
            exact Option.some_ne_none _
          obtain ⟨d, hd⟩ := hwhole hint
          refine ⟨d, hd, ?_⟩
          have hobject : longField obj "t".toList = .ok last' := objectT_of_timestamped hmsg
          obtain ⟨⟨obj', t⟩, hmsg', hd⟩ := bind_eq_ok.mp hd
          cases hmsg.symm.trans hmsg'
          obtain ⟨s, hs, hd⟩ := bind_eq_ok.mp hd
          obtain ⟨symbol, hsymbol, hd⟩ := bind_eq_ok.mp hd
          obtain ⟨p, hp, hd⟩ := bind_eq_ok.mp hd
          obtain ⟨price, hprice, hd⟩ := bind_eq_ok.mp hd
          cases hd
          have hstring : stringField obj "s".toList = .ok symbol := bind_eq_ok.mpr ⟨s, hs, hsymbol⟩
          have hprice' : stringField obj "p".toList = .ok price := bind_eq_ok.mpr ⟨p, hp, hprice⟩
          refine ⟨?_, rfl⟩
          rw [objectDatapoint, hstring, hobject, hprice']
          rfl

variable (info) in
/-- What `parse` pushes are some of the datapoints, and their timestamps do
not fall, nor begin below the variable. -/
theorem pushed_datapoints (last : Int) {msgs : List Str}
    (hwhole : ∀ msg ∈ msgs, Whole parseJson msg) :
    ∃ ds : List Datapoint, (pushed parseJson info last msgs).map objectDatapoint = ds.map .ok ∧
      ds.Sublist (datapoints parseJson msgs) ∧ (last :: ds.map Datapoint.t).Pairwise (· ≤ ·) := by
  induction msgs generalizing last with
  | nil => exact ⟨[], rfl, List.Sublist.refl [], List.pairwise_singleton _ last⟩
  | cons msg msgs ih =>
      have hle := le_parseIteration_fst parseJson info last msg
      rcases hstep : parseIteration parseJson info last msg with ⟨last', outcome⟩
      rw [hstep] at hle
      obtain ⟨ds, hds, hsub, hordered⟩ := ih last' fun m hm => hwhole m (List.mem_cons_of_mem _ hm)
      obtain ⟨hleast, hrest⟩ := List.pairwise_cons.mp hordered
      have hlast : ∀ t ∈ ds.map Datapoint.t, last ≤ t := fun t ht => le_trans hle (hleast t ht)
      have hskip : (datapoints parseJson msgs).Sublist (datapoints parseJson (msg :: msgs)) :=
        (List.sublist_cons_self msg msgs).filterMap _
      rw [pushed, hstep]
      cases outcome with
      | pushed obj =>
          obtain ⟨d, hd, hobj, rfl⟩ :=
            objectDatapoint_of_pushed (hwhole msg List.mem_cons_self) hstep
          refine ⟨d :: ds, ?_, ?_, ?_⟩
          · simp only [List.map_cons, hds, hobj]
          · have hfirst : datapoints parseJson (msg :: msgs) = d :: datapoints parseJson msgs := by
              rw [datapoints, List.filterMap_cons, hd]
              rfl
            rw [hfirst]
            exact hsub.cons_cons d
          · refine List.pairwise_cons.mpr ⟨?_, hordered⟩
            intro t ht
            rcases List.mem_cons.mp ht with rfl | ht
            · exact hle
            · exact hlast t ht
      | stale => exact ⟨ds, hds, hsub.trans hskip, List.pairwise_cons.mpr ⟨hlast, hrest⟩⟩
      | rejected e => exact ⟨ds, hds, hsub.trans hskip, List.pairwise_cons.mpr ⟨hlast, hrest⟩⟩

/-- `publish` gets through whole datapoints, and carries them. -/
theorem carries_publishNext {objs : List Object} {ds : List Datapoint}
    (h : objs.map objectDatapoint = ds.map .ok) :
    ∀ {st : Publisher} {ds₀ : List Datapoint}, st.Carries ds₀ →
      ∃ st', Runs.run (publishNext info ok) st objs = some st' ∧ st'.Carries (ds₀ ++ ds) := by
  induction objs generalizing ds with
  | nil =>
      intro st ds₀ hst
      obtain rfl := List.map_eq_nil_iff.mp h.symm
      exact ⟨st, rfl, by rwa [List.append_nil]⟩
  | cons obj objs ih =>
      intro st ds₀ hst
      cases ds with
      | nil => cases h
      | cons d ds =>
          obtain ⟨hobj, hrest⟩ := List.cons.inj h
          obtain ⟨st₁, hstep, hst₁⟩ := hst.iteration hobj info (ok st.commands.length)
          obtain ⟨st', hrun, hst'⟩ := ih hrest hst₁
          refine ⟨st', Runs.run_cons_eq_some.mpr ⟨st₁, hstep, hrun⟩, ?_⟩
          rwa [List.append_assoc] at hst'

/-- **Where every message with an integer `"t"` is a datapoint: in every run,
however the loops are interleaved, whatever overflows and whichever commands
fail, `publish` is running, and the datapoints sent and those that wait are
some of those received, in the order they were received in, with timestamps
that are not negative and do not fall.** -/
theorem uploaded_in_order {as : List PipelineAction} {p : Pipeline}
    (hwhole : ∀ msg ∈ received as, Whole parseJson msg)
    (hrun : Runs.run (pipelineStep parseJson info ok) .start as = some p) :
    ∃ st ds, p.publisher = some st ∧ st.Carries ds ∧
      ds.Sublist (datapoints parseJson (received as)) ∧ (∀ d ∈ ds, 0 ≤ d.t) ∧
      (ds.map Datapoint.t).Pairwise (· ≤ ·) := by
  obtain ⟨handled, taken, hhandled, _, htaken, hsunk⟩ := lossyFlows_run hrun
  rw [feed_parseStage] at htaken
  rw [foldl_publishSink] at hsunk
  have hreceived : handled.Sublist (received as) :=
    (List.sublist_append_left handled _).trans hhandled
  obtain ⟨ds', hds', hsub, hordered⟩ :=
    pushed_datapoints info 0 fun msg hmsg => hwhole msg (hreceived.subset hmsg)
  have htaken' : taken.Sublist (pushed parseJson info 0 handled) :=
    (List.sublist_append_left taken _).trans htaken
  have hmap := htaken'.map objectDatapoint
  rw [hds'] at hmap
  obtain ⟨ds, hds, htaken⟩ := List.sublist_map_iff.mp hmap
  obtain ⟨st, hst, hcarries⟩ :
      ∃ st, Runs.run (publishNext info ok) .start taken = some st ∧ st.Carries ([] ++ ds) :=
    carries_publishNext htaken carries_start
  obtain ⟨hzero, hpairwise⟩ := List.pairwise_cons.mp hordered
  refine ⟨st, ds, hsunk.symm.trans hst, hcarries, hds.trans (hsub.trans (hreceived.filterMap _)),
    ?_, hpairwise.sublist (hds.map Datapoint.t)⟩
  exact fun d hd => hzero d.t (List.mem_map_of_mem (hds.subset hd))

theorem uploaded_in_order_burst :
    ∃ p st ds, Runs.run (pipelineStep feed true fun _ => true) .start burst = some p ∧
      p.publisher = some st ∧ st.Carries ds ∧
      ds.Sublist (datapoints feed (received burst)) ∧ (∀ d ∈ ds, 0 ≤ d.t) ∧
      (ds.map Datapoint.t).Pairwise (· ≤ ·) := by
  have hwhole : ∀ msg ∈ received burst, Whole feed msg := by
    intro msg hmsg _
    change msg ∈ [ethTick, btcTick] at hmsg
    rcases List.mem_pair.mp hmsg with rfl | rfl
    · exact ⟨_, rfl⟩
    · exact ⟨_, rfl⟩
  have hrun : Runs.run (pipelineStep feed true fun _ => true) .start burst = some _ := rfl
  obtain ⟨st, ds, huploaded⟩ := uploaded_in_order hwhole hrun
  exact ⟨_, st, ds, hrun, huploaded⟩

end SravzBackend.Redis
