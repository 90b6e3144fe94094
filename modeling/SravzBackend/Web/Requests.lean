/-
# `Web.Requests` — what one message changes

A message that subscribes or unsubscribes runs a loop over the topics it
lists, and a topic may be listed twice.  Both loops do the same to a listed
topic: the session's own entry and the symbol's change, and an event is pushed
where the change is an edge.  `Pass` says what a whole loop comes to, in terms
of the state before it; after the first time a topic is listed its change is
no change and no edge.

`parse_effect`: in every reachable state, exactly what `parse` does with a
message of configured topics, and that doing it again does nothing.
-/
import SravzBackend.Web.Sessions

namespace SravzBackend.Web

variable {ω : Type}

/-! ## Each listed topic once -/

/-- Duplicates may be erased before or after filtering. -/
theorem eraseDups_filter {α : Type} [BEq α] [LawfulBEq α] (p : α → Bool) (l : List α) :
    (l.filter p).eraseDups = l.eraseDups.filter p := by
  match l with
  | [] => rfl
  | a :: as =>
      have hrest := eraseDups_filter p (as.filter fun b => !b == a)
      rw [List.filter_filter] at hrest
      rw [List.eraseDups_cons, List.filter_cons, List.filter_cons]
      by_cases ha : p a
      · rw [if_pos ha, if_pos ha, List.eraseDups_cons, List.filter_filter, ← hrest]
        simp only [Bool.and_comm]
      · rw [if_neg ha, if_neg ha, ← hrest]
        congr 1
        refine List.filter_congr fun b _ => ?_
        by_cases hb : b = a
        · subst hb
          simp [ha]
        · simp [hb]
termination_by l.length
decreasing_by exact Nat.lt_succ_of_le (List.length_filter_le _ as)

/-- A predicate that `a` satisfies at most once, before its first occurrence. -/
theorem filter_eraseDups_cons {α : Type} [BEq α] [LawfulBEq α] {p q : α → Bool} {a : α}
    (ha : q a = false) (hq : ∀ b, b ≠ a → q b = p b) (as : List α) :
    (a :: as).eraseDups.filter p = [a].filter p ++ as.eraseDups.filter q := by
  have hrest : (as.filter fun b => !b == a).eraseDups.filter p = as.eraseDups.filter q := by
    rw [eraseDups_filter, List.filter_filter]
    refine List.filter_congr fun b _ => ?_
    by_cases hb : b = a
    · subst hb
      simp [ha]
    · simp [hb, hq b hb]
  rw [List.eraseDups_cons, ← hrest, ← List.filter_append]
  rfl

namespace SharedState

/-! ## One loop -/

def mapSessions (change : Finset ω → Finset ω) (sym : Symbol ω) : Symbol ω :=
  { sym with sessions := change sym.sessions }

/-- What a loop of session `s` over `topics` does.  The sessions of a listed
topic change by `change`, and an event of this type is pushed for each where
they were an `edge`; the session then holds all of the listed topics or, with
`held` false, none. -/
structure Pass (change : Finset ω → Finset ω) (edge : Finset ω → Prop) [DecidablePred edge]
    (type : MsgType) (held : Prop) (s : ω) (st : SharedState ω) (topics : List Str)
    (st' : SharedState ω) : Prop where
  listed : ∀ t ∈ topics, (t ∈ st'.topics s ↔ held) ∧
    st'.symbols t = (st.symbols t).map (Option.map (mapSessions change))
  unlisted : ∀ t ∉ topics, (t ∈ st'.topics s ↔ t ∈ st.topics s) ∧ st'.symbols t = st.symbols t
  others : ∀ s', s' ≠ s → st'.topics s' = st.topics s'
  sessions : st'.sessions = st.sessions
  lost : st.lost <+: st'.lost
  events : st'.lost = st.lost → st'.spscQueueSubscriber.items = st.spscQueueSubscriber.items ++
    (topics.eraseDups.filter fun t => edge (st.sessionsOf t)).map fun t => (type, t)

section Passes

variable {change : Finset ω → Finset ω} {edge : Finset ω → Prop} [DecidablePred edge]
  {type : MsgType} {held : Prop} {s : ω} {cfg : Str}

theorem Pass.nil (st : SharedState ω) : Pass change edge type held s st [] st where
  listed _ ht := absurd ht List.not_mem_nil
  unlisted _ _ := ⟨Iff.rfl, rfl⟩
  others _ _ := rfl
  sessions := rfl
  lost := List.prefix_rfl
  events _ := (List.append_nil _).symm

/-- The sessions of a listed topic that has a symbol. -/
theorem Pass.sessionsOf_listed {st st' : SharedState ω} {topics : List Str}
    (h : Pass change edge type held s st topics st') (hst : st.Intact cfg) {t : Str}
    (ht : t ∈ topics) (hcfg : t ∈ split cfg) :
    st'.sessionsOf t = change (st.sessionsOf t) := by
  obtain ⟨sym, hsym⟩ := hst.configured t hcfg
  have hsym' := (h.listed t ht).2
  rw [hsym] at hsym'
  rw [sessionsOf_of_symbol hsym, sessionsOf_of_symbol hsym']
  rfl

theorem Pass.sessionsOf_unlisted {st st' : SharedState ω} {topics : List Str}
    (h : Pass change edge type held s st topics st') {t : Str} (ht : t ∉ topics) :
    st'.sessionsOf t = st.sessionsOf t := by
  unfold sessionsOf
  rw [(h.unlisted t ht).2]

theorem Pass.intact {st st' : SharedState ω} {topics : List Str}
    (h : Pass change edge type held s st topics st') (hst : st.Intact cfg) : st'.Intact cfg := by
  refine ⟨?_, ?_⟩
  · intro t hcfg
    obtain ⟨sym, hsym⟩ := hst.configured t hcfg
    by_cases ht : t ∈ topics
    · rw [(h.listed t ht).2, hsym]
      exact ⟨_, rfl⟩
    · rw [(h.unlisted t ht).2, hsym]
      exact ⟨_, rfl⟩
  · intro t hcfg
    by_cases ht : t ∈ topics
    · rw [(h.listed t ht).2, hst.others t hcfg]
      rfl
    · rw [(h.unlisted t ht).2, hst.others t hcfg]

/-- A loop is its first turn, and then the rest of it. -/
theorem Pass.cons (hchange : ∀ m, change (change m) = change m) (hedge : ∀ m, ¬ edge (change m))
    {st st₁ st' : SharedState ω} {topic : Str} {topics : List Str} (hst : st.Intact cfg)
    (hcfg : topic ∈ split cfg) (hfirst : Pass change edge type held s st [topic] st₁)
    (hrest : Pass change edge type held s st₁ topics st') :
    Pass change edge type held s st (topic :: topics) st' where
  listed t ht := by
    by_cases hrestt : t ∈ topics
    · refine ⟨(hrest.listed t hrestt).1, ?_⟩
      rw [(hrest.listed t hrestt).2]
      by_cases heq : t = topic
      · -- listed twice: the second change changes nothing
        rw [(hfirst.listed t (List.mem_singleton.mpr heq)).2]
        obtain ⟨sym, hsym⟩ := hst.configured topic hcfg
        rw [heq, hsym]
        simp only [Option.map_some, mapSessions, hchange]
      · rw [(hfirst.unlisted t (mt List.mem_singleton.mp heq)).2]
    · have heq : t ∈ [topic] :=
        List.mem_singleton.mpr ((List.mem_cons.mp ht).resolve_right hrestt)
      rw [(hrest.unlisted t hrestt).1, (hrest.unlisted t hrestt).2]
      exact hfirst.listed t heq
  unlisted t ht := by
    obtain ⟨hne, hrestt⟩ := not_or.mp (mt List.mem_cons.mpr ht)
    have hone := hfirst.unlisted t (mt List.mem_singleton.mp hne)
    have hmore := hrest.unlisted t hrestt
    exact ⟨hmore.1.trans hone.1, hmore.2.trans hone.2⟩
  others s' hs := (hrest.others s' hs).trans (hfirst.others s' hs)
  sessions := hrest.sessions.trans hfirst.sessions
  lost := hfirst.lost.trans hrest.lost
  events hlost := by
    have hfirstLost : st₁.lost = st.lost :=
      (hfirst.lost.eq_of_length_le (hlost ▸ hrest.lost.length_le)).symm
    rw [hrest.events (hlost.trans hfirstLost.symm), hfirst.events hfirstLost, List.append_assoc,
      ← List.map_append]
    have hself : decide (edge (st₁.sessionsOf topic)) = false := by
      rw [hfirst.sessionsOf_listed hst (List.mem_singleton.mpr rfl) hcfg]
      exact decide_eq_false (hedge _)
    have hothers : ∀ t, t ≠ topic →
        decide (edge (st₁.sessionsOf t)) = decide (edge (st.sessionsOf t)) := by
      intro t ht
      rw [hfirst.sessionsOf_unlisted (mt List.mem_singleton.mp ht)]
    have hfilter := filter_eraseDups_cons (p := fun t => decide (edge (st.sessionsOf t))) hself
      hothers topics
    rw [hfilter]
    rfl

/-- A loop each of whose turns does what is asked of it. -/
theorem pass_loop (hchange : ∀ m, change (change m) = change m)
    (hedge : ∀ m, ¬ edge (change m))
    {body : SharedState ω → Str → Except (SharedState ω) (SharedState ω)}
    (hbody : ∀ st topic sym, st.symbols topic = some (some sym) →
      ∃ st', body st topic = .ok st' ∧ Pass change edge type held s st [topic] st')
    (topics : List Str) : ∀ {st : SharedState ω}, st.Intact cfg → (∀ t ∈ topics, t ∈ split cfg) →
      ∃ st', topics.foldlM body st = .ok st' ∧ Pass change edge type held s st topics st' := by
  induction topics with
  | nil => exact fun {st} _ _ => ⟨st, rfl, .nil st⟩
  | cons topic topics ih =>
      intro st hst hcfg
      obtain ⟨htopic, htopics⟩ := List.forall_mem_cons.mp hcfg
      obtain ⟨sym, hsym⟩ := hst.configured topic htopic
      obtain ⟨st₁, hst₁, hfirst⟩ := hbody st topic sym hsym
      obtain ⟨st', hst', hrest⟩ := ih (hfirst.intact hst) htopics
      refine ⟨st', ?_, .cons hchange hedge hst htopic hfirst hrest⟩
      rw [List.foldlM_cons, hst₁]
      exact hst'

/-- A loop none of whose turns does anything. -/
theorem foldlM_eq_self {body : SharedState ω → Str → Except (SharedState ω) (SharedState ω)}
    {st : SharedState ω} {topics : List Str} (h : ∀ t ∈ topics, body st t = .ok st) :
    topics.foldlM body st = .ok st := by
  induction topics with
  | nil => rfl
  | cons topic topics ih =>
      obtain ⟨hfirst, hrest⟩ := List.forall_mem_cons.mp h
      rw [List.foldlM_cons, hfirst]
      exact ih hrest

end Passes

/-! ## The turns of the two loops -/

theorem setSymbol_eq_self {st : SharedState ω} {topic : Str} {p : Option (Symbol ω)}
    (h : st.symbols topic = some p) : st.setSymbol topic p = st := by
  rw [setSymbol, ← h, Function.update_eq_self]

variable [DecidableEq ω]

theorem setTopics_eq_self (st : SharedState ω) (s : ω) : st.setTopics s (st.topics s) = st := by
  rw [setTopics, Function.update_eq_self]

omit [DecidableEq ω] in
/-- A push that is not lost has found room. -/
theorem push_items_of_lost {st : SharedState ω} {ev : SubscriberEvent}
    (h : (st.push ev).lost = st.lost) :
    (st.push ev).spscQueueSubscriber.items = st.spscQueueSubscriber.items ++ [ev] := by
  by_cases hroom : st.spscQueueSubscriber.items.length < 1024
  · exact (push_of_room hroom ev).1
  · rw [(push_of_full hroom ev).2] at h
    exact absurd (List.append_right_eq_self.mp h) (List.cons_ne_nil ev [])

omit [DecidableEq ω] in
theorem lost_push (st : SharedState ω) (ev : SubscriberEvent) : st.lost <+: (st.push ev).lost := by
  by_cases hroom : st.spscQueueSubscriber.items.length < 1024
  · rw [(push_of_room hroom ev).2]
  · rw [(push_of_full hroom ev).2]
    exact List.prefix_append _ _

/-- One turn: the session's own entry, and then the symbol. -/
theorem pass_turn {change : Finset ω → Finset ω} {edge : Finset ω → Prop} [DecidablePred edge]
    {type : MsgType} {held : Prop} {s : ω} {st : SharedState ω} {topic : Str} {sym : Symbol ω}
    {ts : OrdSet Str} (hsym : st.symbols topic = some (some sym)) (hheld : topic ∈ ts ↔ held)
    (hts : ∀ t, t ≠ topic → (t ∈ ts ↔ t ∈ st.topics s)) :
    Pass change edge type held s st [topic] ((st.setTopics s ts).settleSymbol topic
      (mapSessions change sym) (edge (st.sessionsOf topic)) type) where
  listed t ht := by
    rw [List.mem_singleton.mp ht, settleSymbol_topics, setTopics_self, settleSymbol_symbols,
      Function.update_self, hsym]
    exact ⟨hheld, rfl⟩
  unlisted t ht := by
    have hne : t ≠ topic := mt List.mem_singleton.mpr ht
    rw [settleSymbol_topics, setTopics_self, settleSymbol_symbols, Function.update_of_ne hne]
    exact ⟨hts t hne, rfl⟩
  others s' hs := by
    rw [settleSymbol_topics, setTopics_of_ne st hs]
  sessions := by
    rw [settleSymbol_sessions]
    rfl
  lost := by
    by_cases hedge : edge (st.sessionsOf topic)
    · rw [settleSymbol_lost_of_edge hedge]
      exact lost_push _ _
    · rw [settleSymbol_lost_of_not_edge hedge]
      exact List.prefix_rfl
  events hlost := by
    have hone : [topic].eraseDups = [topic] := rfl
    rw [hone]
    by_cases hedge : edge (st.sessionsOf topic)
    · rw [settleSymbol_lost_of_edge hedge] at hlost
      rw [settleSymbol_queue_of_edge hedge, push_items_of_lost hlost, List.filter_cons,
        if_pos (decide_eq_true hedge)]
      rfl
    · rw [settleSymbol_queue_of_not_edge hedge, List.filter_cons,
        if_neg (mt of_decide_eq_true hedge)]
      exact (List.append_nil _).symm

theorem pass_subscribeTopic (s : ω) (st : SharedState ω) (topic : Str) (sym : Symbol ω)
    (hsym : st.symbols topic = some (some sym)) :
    ∃ st', subscribeTopic s st topic = .ok st' ∧
      Pass (insert s) (· = ∅) .subscribe True s st [topic] st' := by
  refine ⟨_, joinSymbol_eq (st.insertTopic s topic) s topic hsym, ?_⟩
  refine pass_turn hsym (iff_true_intro (OrdSet.mem_insert.mpr (.inl rfl))) ?_
  intro t ht
  rw [OrdSet.mem_insert, or_iff_right ht]

theorem pass_unsubscribeTopic (s : ω) (st : SharedState ω) (topic : Str) (sym : Symbol ω)
    (hsym : st.symbols topic = some (some sym)) :
    ∃ st', unsubscribeTopic s st topic = .ok st' ∧
      Pass (·.erase s) (· = {s}) .unsubscribe False s st [topic] st' := by
  refine ⟨_, leaveSymbol_eq (st.eraseTopic s topic) s topic hsym, ?_⟩
  refine pass_turn hsym (iff_false_intro fun h => (OrdSet.mem_erase.mp h).1 rfl) ?_
  intro t ht
  rw [OrdSet.mem_erase, and_iff_right ht]

/-- A turn for a topic the session holds, and whose symbol it has joined, does
nothing. -/
theorem subscribeTopic_eq_self {s : ω} {st : SharedState ω} {topic : Str} {sym : Symbol ω}
    (hsym : st.symbols topic = some (some sym)) (hs : s ∈ sym.sessions)
    (ht : topic ∈ st.topics s) : subscribeTopic s st topic = .ok st := by
  have hinsert : st.insertTopic s topic = st := by
    rw [insertTopic, OrdSet.insert_of_mem ht, setTopics_eq_self]
  have hsame : sym.join s = sym := by
    rw [Symbol.join, Finset.insert_eq_of_mem hs]
  have hedge : ¬ st.sessionsOf topic = ∅ := by
    rw [sessionsOf_of_symbol hsym]
    exact Finset.ne_empty_of_mem hs
  rw [subscribeTopic, hinsert, joinSymbol_eq st s topic hsym, hsame, settleSymbol, if_neg hedge,
    setSymbol_eq_self hsym]

/-- A turn for a topic the session does not hold, and whose symbol it has not
joined, does nothing. -/
theorem unsubscribeTopic_eq_self {s : ω} {st : SharedState ω} {topic : Str} {sym : Symbol ω}
    (hsym : st.symbols topic = some (some sym)) (hs : s ∉ sym.sessions)
    (ht : topic ∉ st.topics s) : unsubscribeTopic s st topic = .ok st := by
  have herase : st.eraseTopic s topic = st := by
    rw [eraseTopic, OrdSet.erase_of_not_mem ht, setTopics_eq_self]
  have hsame : (sym.leave s).1 = sym := by
    rw [Symbol.leave, Finset.erase_eq_of_notMem hs]
  have hedge : ¬ st.sessionsOf topic = {s} := by
    rw [sessionsOf_of_symbol hsym]
    rintro hone
    exact hs (hone ▸ Finset.mem_singleton_self s)
  rw [unsubscribeTopic, herase, leaveSymbol_eq st s topic hsym, hsame, settleSymbol,
    if_neg hedge, setSymbol_eq_self hsym]

end SharedState

/-! ## Messages -/

/-- A JSON object with an integer `"ty"` and, as `"to"`, a comma list. -/
def Lists (parseJson : JsonParser) (msg : Str) (ty : Int) (topics : List Str) : Prop :=
  ∃ obj tyValue toValue text, parseJson msg = .ok (.object obj) ∧
    objectAt obj "ty".toList = .ok tyValue ∧ tyValue.toInt = .ok ty ∧
    objectAt obj "to".toList = .ok toValue ∧ toValue.toStr = .ok text ∧ topics = split text

theorem asObject_eq_ok {v : Json} {obj : Object} : v.asObject = .ok obj ↔ v = .object obj := by
  cases v <;> simp [Json.asObject]

theorem ofInt_eq_iff (n : Int) :
    (MsgType.ofInt n = .subscribe ↔ n = 1) ∧ (MsgType.ofInt n = .unsubscribe ↔ n = 2) := by
  unfold MsgType.ofInt
  split
  · next h => simp [h]
  · next h =>
      split
      · next h₂ => simp [h₂]
      · next h₂ => simp [h, h₂]

/-- The steps up to the type of the message, and those after it. -/
theorem request_eq_ok_iff {parseJson : JsonParser} {msg : Str} {r : Request} :
    request parseJson msg = .ok r ↔
      ∃ obj tyValue n, parseJson msg = .ok (.object obj) ∧
        objectAt obj "ty".toList = .ok tyValue ∧ tyValue.toInt = .ok n ∧
        (match MsgType.ofInt n with
          | .subscribe => do
              return Request.subscribe (split (← (← objectAt obj "to".toList).toStr))
          | .unsubscribe => do
              return Request.unsubscribe (split (← (← objectAt obj "to".toList).toStr))
          | .other _ => return Request.unsupported) = Except.ok r := by
  unfold request
  simp only [bind_eq_ok, asObject_eq_ok]
  constructor
  · rintro ⟨_, hmsg, obj, rfl, tyValue, hty, n, hn, h⟩
    exact ⟨obj, tyValue, n, hmsg, hty, hn, h⟩
  · rintro ⟨obj, tyValue, n, hmsg, hty, hn, h⟩
    exact ⟨_, hmsg, obj, rfl, tyValue, hty, n, hn, h⟩

/-- Reading the list, whatever is asked for. -/
theorem list_eq_ok_iff {obj : Object} {ask : List Str → Request} {r : Request} :
    (do return ask (split (← (← objectAt obj "to".toList).toStr))) = Except.ok r ↔
      ∃ toValue text, objectAt obj "to".toList = .ok toValue ∧ toValue.toStr = .ok text ∧
        ask (split text) = r := by
  simp only [bind_eq_ok]
  constructor
  · rintro ⟨toValue, hto, text, htext, h⟩
    exact ⟨toValue, text, hto, htext, Except.ok.inj h⟩
  · rintro ⟨toValue, text, hto, htext, rfl⟩
    exact ⟨toValue, hto, text, htext, rfl⟩

theorem request_subscribe_iff {parseJson : JsonParser} {msg : Str} {topics : List Str} :
    request parseJson msg = .ok (.subscribe topics) ↔ Lists parseJson msg 1 topics := by
  rw [request_eq_ok_iff]
  constructor
  · rintro ⟨obj, tyValue, n, hmsg, hty, hn, h⟩
    split at h
    · next htype =>
        obtain ⟨toValue, text, hto, htext, heq⟩ := list_eq_ok_iff.mp h
        cases heq
        rw [(ofInt_eq_iff n).1.mp htype] at hn
        exact ⟨obj, tyValue, toValue, text, hmsg, hty, hn, hto, htext, rfl⟩
    · obtain ⟨_, _, _, _, heq⟩ := list_eq_ok_iff.mp h
      cases heq
    · cases h
  · rintro ⟨obj, tyValue, toValue, text, hmsg, hty, hn, hto, htext, rfl⟩
    refine ⟨obj, tyValue, 1, hmsg, hty, hn, ?_⟩
    rw [(ofInt_eq_iff 1).1.mpr rfl]
    exact list_eq_ok_iff.mpr ⟨toValue, text, hto, htext, rfl⟩

theorem request_unsubscribe_iff {parseJson : JsonParser} {msg : Str} {topics : List Str} :
    request parseJson msg = .ok (.unsubscribe topics) ↔ Lists parseJson msg 2 topics := by
  rw [request_eq_ok_iff]
  constructor
  · rintro ⟨obj, tyValue, n, hmsg, hty, hn, h⟩
    split at h
    · obtain ⟨_, _, _, _, heq⟩ := list_eq_ok_iff.mp h
      cases heq
    · next htype =>
        obtain ⟨toValue, text, hto, htext, heq⟩ := list_eq_ok_iff.mp h
        cases heq
        rw [(ofInt_eq_iff n).2.mp htype] at hn
        exact ⟨obj, tyValue, toValue, text, hmsg, hty, hn, hto, htext, rfl⟩
    · cases h
  · rintro ⟨obj, tyValue, toValue, text, hmsg, hty, hn, hto, htext, rfl⟩
    refine ⟨obj, tyValue, 2, hmsg, hty, hn, ?_⟩
    rw [(ofInt_eq_iff 2).2.mpr rfl]
    exact list_eq_ok_iff.mpr ⟨toValue, text, hto, htext, rfl⟩

namespace SharedState

/-- What one session's message leaves alone: the other sessions' topics and
memberships, the set of sessions, and of the symbols all but their sessions. -/
structure Frame (s : ω) (st st' : SharedState ω) : Prop where
  topics : ∀ s', s' ≠ s → st'.topics s' = st.topics s'
  members : ∀ s', s' ≠ s → ∀ t, s' ∈ st'.sessionsOf t ↔ s' ∈ st.sessionsOf t
  sessions : st'.sessions = st.sessions
  codes : ∀ t, (st'.symbols t).map (Option.map Symbol.code) =
    (st.symbols t).map (Option.map Symbol.code)

/-- The session holds and has joined the listed topics as well, and an event
has been pushed for each of them that had no session. -/
structure Subscribed [DecidableEq ω] (s : ω) (topics : List Str) (st st' : SharedState ω) :
    Prop where
  held : ∀ t, t ∈ st'.topics s ↔ t ∈ st.topics s ∨ t ∈ topics
  joined : ∀ t, s ∈ st'.sessionsOf t ↔ s ∈ st.sessionsOf t ∨ t ∈ topics
  events : st'.spscQueueSubscriber.items = st.spscQueueSubscriber.items ++
    (topics.eraseDups.filter fun t => st.sessionsOf t = ∅).map fun t => (.subscribe, t)
  frame : Frame s st st'

/-- The session holds and has joined the listed topics no more, and an event
has been pushed for each of them that had no other session. -/
structure Unsubscribed [DecidableEq ω] (s : ω) (topics : List Str) (st st' : SharedState ω) :
    Prop where
  held : ∀ t, t ∈ st'.topics s ↔ t ∈ st.topics s ∧ t ∉ topics
  joined : ∀ t, s ∈ st'.sessionsOf t ↔ s ∈ st.sessionsOf t ∧ t ∉ topics
  events : st'.spscQueueSubscriber.items = st.spscQueueSubscriber.items ++
    (topics.eraseDups.filter fun t => st.sessionsOf t = {s}).map fun t => (.unsubscribe, t)
  frame : Frame s st st'

section Effects

variable {change : Finset ω → Finset ω} {edge : Finset ω → Prop} [DecidablePred edge]
  {type : MsgType} {held : Prop} {s : ω} {cfg : Str} {st st' : SharedState ω} {topics : List Str}

theorem Pass.frame (h : Pass change edge type held s st topics st') (hst : st.Intact cfg)
    (hcfg : ∀ t ∈ topics, t ∈ split cfg)
    (hchange : ∀ m s', s' ≠ s → (s' ∈ change m ↔ s' ∈ m)) : Frame s st st' where
  topics := h.others
  members s' hs t := by
    by_cases ht : t ∈ topics
    · rw [h.sessionsOf_listed hst ht (hcfg t ht)]
      exact hchange _ s' hs
    · rw [h.sessionsOf_unlisted ht]
  sessions := h.sessions
  codes t := by
    by_cases ht : t ∈ topics
    · rw [(h.listed t ht).2, Option.map_map]
      congr 1
      funext p
      cases p <;> rfl
    · rw [(h.unlisted t ht).2]

variable [DecidableEq ω]

theorem Pass.subscribed (h : Pass (insert s) (· = ∅) .subscribe True s st topics st')
    (hst : st.Intact cfg) (hcfg : ∀ t ∈ topics, t ∈ split cfg) (hlost : st'.lost = st.lost) :
    Subscribed s topics st st' where
  held t := by
    by_cases ht : t ∈ topics
    · exact iff_of_true ((h.listed t ht).1.mpr trivial) (.inr ht)
    · rw [(h.unlisted t ht).1, or_iff_left ht]
  joined t := by
    by_cases ht : t ∈ topics
    · rw [h.sessionsOf_listed hst ht (hcfg t ht)]
      exact iff_of_true (Finset.mem_insert_self s _) (.inr ht)
    · rw [h.sessionsOf_unlisted ht, or_iff_left ht]
  events := h.events hlost
  frame := h.frame hst hcfg fun m s' hs => by rw [Finset.mem_insert, or_iff_right hs]

theorem Pass.unsubscribed (h : Pass (·.erase s) (· = {s}) .unsubscribe False s st topics st')
    (hst : st.Intact cfg) (hcfg : ∀ t ∈ topics, t ∈ split cfg) (hlost : st'.lost = st.lost) :
    Unsubscribed s topics st st' where
  held t := by
    by_cases ht : t ∈ topics
    · exact iff_of_false (h.listed t ht).1.mp fun hno => hno.2 ht
    · rw [(h.unlisted t ht).1, and_iff_left ht]
  joined t := by
    by_cases ht : t ∈ topics
    · rw [h.sessionsOf_listed hst ht (hcfg t ht)]
      exact iff_of_false (Finset.notMem_erase s _) fun hno => hno.2 ht
    · rw [h.sessionsOf_unlisted ht, and_iff_left ht]
  events := h.events hlost
  frame := h.frame hst hcfg fun m s' hs => by rw [Finset.mem_erase, and_iff_right hs]

/-- Subscribing again does nothing. -/
theorem Pass.subscribe_again (h : Pass (insert s) (· = ∅) .subscribe True s st topics st')
    (hst : st.Intact cfg) (hcfg : ∀ t ∈ topics, t ∈ split cfg) :
    st'.websocketSubscribeToSymbols s topics = .ok st' := by
  refine foldlM_eq_self fun t ht => ?_
  obtain ⟨sym, hsym⟩ := (h.intact hst).configured t (hcfg t ht)
  refine subscribeTopic_eq_self hsym ?_ ((h.listed t ht).1.mpr trivial)
  rw [← sessionsOf_of_symbol hsym, h.sessionsOf_listed hst ht (hcfg t ht)]
  exact Finset.mem_insert_self s _

/-- Unsubscribing again does nothing. -/
theorem Pass.unsubscribe_again
    (h : Pass (·.erase s) (· = {s}) .unsubscribe False s st topics st')
    (hst : st.Intact cfg) (hcfg : ∀ t ∈ topics, t ∈ split cfg) :
    st'.websocketUnsubscribeToSymbols s topics = .ok st' := by
  refine foldlM_eq_self fun t ht => ?_
  obtain ⟨sym, hsym⟩ := (h.intact hst).configured t (hcfg t ht)
  refine unsubscribeTopic_eq_self hsym ?_ (h.listed t ht).1.mp
  rw [← sessionsOf_of_symbol hsym, h.sessionsOf_listed hst ht (hcfg t ht)]
  exact Finset.notMem_erase s _

end Effects

/-! ### What `parse` does with a request -/

section Parse

variable [DecidableEq ω] {parseJson : JsonParser} {msg : Str} {topics : List Str}

theorem parse_of_subscribe (h : request parseJson msg = .ok (.subscribe topics)) (s : ω)
    (st : SharedState ω) :
    st.parse parseJson msg s = st.websocketSubscribeToSymbols s topics := by
  rw [parse, h]

theorem parse_of_unsubscribe (h : request parseJson msg = .ok (.unsubscribe topics)) (s : ω)
    (st : SharedState ω) :
    st.parse parseJson msg s = st.websocketUnsubscribeToSymbols s topics := by
  rw [parse, h]

theorem Intact.parse_subscribed {cfg : Str} {st : SharedState ω} (hst : st.Intact cfg) (s : ω)
    (h : request parseJson msg = .ok (.subscribe topics)) (hcfg : ∀ t ∈ topics, t ∈ split cfg) :
    ∃ st', st.parse parseJson msg s = .ok st' ∧
      (st'.lost = st.lost → st.Subscribed s topics st') ∧ st'.parse parseJson msg s = .ok st' := by
  obtain ⟨st', hst', hpass⟩ := pass_loop (fun m => Finset.insert_idem s m)
    (fun m => Finset.insert_ne_empty s m) (pass_subscribeTopic s) topics hst hcfg
  refine ⟨st', (parse_of_subscribe h s st).trans hst', hpass.subscribed hst hcfg, ?_⟩
  exact (parse_of_subscribe h s st').trans (hpass.subscribe_again hst hcfg)

theorem Intact.parse_unsubscribed {cfg : Str} {st : SharedState ω} (hst : st.Intact cfg) (s : ω)
    (h : request parseJson msg = .ok (.unsubscribe topics)) (hcfg : ∀ t ∈ topics, t ∈ split cfg) :
    ∃ st', st.parse parseJson msg s = .ok st' ∧
      (st'.lost = st.lost → st.Unsubscribed s topics st') ∧
      st'.parse parseJson msg s = .ok st' := by
  have hedge : ∀ m : Finset ω, ¬ m.erase s = {s} := by
    intro m heq
    exact Finset.notMem_erase s m (heq ▸ Finset.mem_singleton_self s)
  obtain ⟨st', hst', hpass⟩ := pass_loop (fun _ => Finset.erase_idem) hedge
    (pass_unsubscribeTopic s) topics hst hcfg
  refine ⟨st', (parse_of_unsubscribe h s st).trans hst', hpass.unsubscribed hst hcfg, ?_⟩
  exact (parse_of_unsubscribe h s st').trans (hpass.unsubscribe_again hst hcfg)

theorem parse_of_neither (hsubscribe : ∀ topics, request parseJson msg ≠ .ok (.subscribe topics))
    (hunsubscribe : ∀ topics, request parseJson msg ≠ .ok (.unsubscribe topics))
    (st : SharedState ω) (s : ω) : st.parse parseJson msg s = .ok st := by
  unfold parse
  cases hrequest : request parseJson msg with
  | error e => rfl
  | ok req =>
      cases req with
      | subscribe topics => exact absurd hrequest (hsubscribe topics)
      | unsubscribe topics => exact absurd hrequest (hunsubscribe topics)
      | unsupported => rfl

end Parse

end SharedState

/-! ## Reachable states -/

section Reachable

variable [DecidableEq ω] {parseJson : JsonParser} {cfg : Str}

theorem intact_run {as : List (Action ω)} {sys : System ω}
    (hrun : Runs.run (step parseJson) (.start cfg) as = some sys) (hfault : sys.fault = false) :
    sys.shared.Intact cfg := by
  have hinv := Runs.run_inv (P := fun sys : System ω => sys.fault = false → sys.shared.Intact cfg)
    (G := fun _ => True)
    (fun {_ _ _} h _ hstep hfault' => intact_step (h (move_of_step hstep).1) hstep hfault')
    (fun _ => SharedState.init_intact cfg) (fun _ _ => trivial) hrun
  exact hinv hfault

/-- **In every reachable state, a message of configured topics that finds room
for its events does exactly this: listed topics are subscribed or unsubscribed,
with an event for each distinct one that had no session or no other one; any
other message does nothing; and sent again it does nothing.** -/
theorem parse_effect {as : List (Action ω)} {sys : System ω}
    (hrun : Runs.run (step parseJson) (.start cfg) as = some sys) (hfault : sys.fault = false)
    (s : ω) {msg : Str} (hcfg : ∀ t ∈ namedTopics parseJson msg, t ∈ split cfg) :
    ∃ st', sys.shared.parse parseJson msg s = .ok st' ∧ (st'.lost = sys.shared.lost →
      (∀ topics, Lists parseJson msg 1 topics → sys.shared.Subscribed s topics st') ∧
      (∀ topics, Lists parseJson msg 2 topics → sys.shared.Unsubscribed s topics st') ∧
      ((∀ topics, ¬ Lists parseJson msg 1 topics ∧ ¬ Lists parseJson msg 2 topics) →
        st' = sys.shared) ∧
      st'.parse parseJson msg s = .ok st') := by
  have hintact := intact_run hrun hfault
  by_cases hsubscribe : ∃ topics, Lists parseJson msg 1 topics
  · obtain ⟨topics, hlists⟩ := hsubscribe
    have hrequest := request_subscribe_iff.mpr hlists
    rw [namedTopics, hrequest] at hcfg
    obtain ⟨st', hst', hsubscribed, hagain⟩ := hintact.parse_subscribed s hrequest hcfg
    refine ⟨st', hst', fun hlost => ⟨?_, ?_, ?_, hagain⟩⟩
    · intro topics' hlists'
      cases hrequest.symm.trans (request_subscribe_iff.mpr hlists')
      exact hsubscribed hlost
    · intro topics' hlists'
      cases hrequest.symm.trans (request_unsubscribe_iff.mpr hlists')
    · intro hno
      exact absurd hlists (hno topics).1
  · by_cases hunsubscribe : ∃ topics, Lists parseJson msg 2 topics
    · obtain ⟨topics, hlists⟩ := hunsubscribe
      have hrequest := request_unsubscribe_iff.mpr hlists
      rw [namedTopics, hrequest] at hcfg
      obtain ⟨st', hst', hunsubscribed, hagain⟩ := hintact.parse_unsubscribed s hrequest hcfg
      refine ⟨st', hst', fun hlost => ⟨?_, ?_, ?_, hagain⟩⟩
      · intro topics' hlists'
        exact absurd ⟨topics', hlists'⟩ hsubscribe
      · intro topics' hlists'
        cases hrequest.symm.trans (request_unsubscribe_iff.mpr hlists')
        exact hunsubscribed hlost
      · intro hno
        exact absurd hlists (hno topics).2
    · have hsame : sys.shared.parse parseJson msg s = .ok sys.shared := by
        refine SharedState.parse_of_neither ?_ ?_ sys.shared s
        · intro topics hrequest
          exact hsubscribe ⟨topics, request_subscribe_iff.mp hrequest⟩
        · intro topics hrequest
          exact hunsubscribe ⟨topics, request_unsubscribe_iff.mp hrequest⟩
      refine ⟨sys.shared, hsame, fun _ => ⟨?_, ?_, fun _ => rfl, hsame⟩⟩
      · intro topics hlists
        exact absurd ⟨topics, hlists⟩ hsubscribe
      · intro topics hlists
        exact absurd ⟨topics, hlists⟩ hunsubscribe

/-- A session that has joined a topic unsubscribes from it, another being
between its two sections. -/
theorem unsubscribe_between_sections :
    ∃ sys : System Nat,
      Runs.run (step clientParser) (.start twoTopics) twoSessions = some sys ∧
        ∃ st', sys.shared.parse clientParser unsubscribeEth 0 = .ok st' ∧
          (st'.lost = sys.shared.lost →
            (∀ topics, Lists clientParser unsubscribeEth 1 topics →
              sys.shared.Subscribed 0 topics st') ∧
            (∀ topics, Lists clientParser unsubscribeEth 2 topics →
              sys.shared.Unsubscribed 0 topics st') ∧
            ((∀ topics, ¬ Lists clientParser unsubscribeEth 1 topics ∧
              ¬ Lists clientParser unsubscribeEth 2 topics) → st' = sys.shared) ∧
            st'.parse clientParser unsubscribeEth 0 = .ok st') := by
  have hcfg : ∀ t ∈ namedTopics clientParser unsubscribeEth, t ∈ split twoTopics := by decide
  have hrun : Runs.run (step clientParser) (.start twoTopics) twoSessions = some _ := rfl
  exact ⟨_, hrun, parse_effect hrun rfl 0 hcfg⟩

end Reachable

end SravzBackend.Web
