/-
# `Web.Subscriptions` — the two halves of a subscription

A session keeps the topics it is subscribed to, a symbol keeps the sessions
subscribed to it as raw pointers, and the two are written in different
critical sections.  `Linked` says how far apart the two may be, for each point
a session can be at: they differ at most in the topic between whose two
sections the session is; and once `leave` has begun, a session holds no topic
that its copy of them does not still have ahead.

`sessions_linked`: in every reachable state no set holds a session that is
gone, and a session between its procedures is in the sets of exactly the
topics it holds.
-/
import SravzBackend.Web.Sessions

namespace SravzBackend.Web

variable {ω : Type}

/-- The topics the loop of `leave` has still to take the session off. -/
def Pc.remaining : Pc → Option (List Str)
  | .unsubscribing true topic rest => some (topic :: rest)
  | .parting true _ rest => some rest
  | .erasing => some []
  | .absent => some []
  | _ => none

theorem Pc.remaining_subscribe (topics : List Str) : (Pc.subscribe topics).remaining = none := by
  cases topics <;> rfl

theorem Pc.remaining_unsubscribe (leaving : Bool) (topics : List Str) :
    (Pc.unsubscribe leaving topics).remaining = if leaving then some topics else none := by
  cases topics <;> cases leaving <;> rfl

theorem Pc.remaining_ofRequest (r : Except JsonError Request) :
    (Pc.ofRequest r).remaining = none := by
  cases r with
  | error e => rfl
  | ok req =>
      cases req with
      | subscribe topics => exact remaining_subscribe topics
      | unsubscribe topics => exact remaining_unsubscribe false topics
      | unsupported => rfl

/-- The head of a loop is no place between two sections. -/
def Pc.Settled (pc : Pc) : Prop := pc.pending = none ∧ pc ≠ .absent

theorem Pc.settled_subscribe (topics : List Str) : (Pc.subscribe topics).Settled := by
  cases topics <;> exact ⟨rfl, Pc.noConfusion⟩

theorem Pc.settled_unsubscribe (leaving : Bool) (topics : List Str) :
    (Pc.unsubscribe leaving topics).Settled := by
  cases topics <;> cases leaving <;> exact ⟨rfl, Pc.noConfusion⟩

theorem Pc.settled_ofRequest (r : Except JsonError Request) : (Pc.ofRequest r).Settled := by
  cases r with
  | error e => exact ⟨rfl, Pc.noConfusion⟩
  | ok req =>
      cases req with
      | subscribe topics => exact settled_subscribe topics
      | unsubscribe topics => exact settled_unsubscribe false topics
      | unsupported => exact ⟨rfl, Pc.noConfusion⟩

/-- How the two halves of the subscriptions of a session at `pc` are related. -/
structure Linked (st : SharedState ω) (s : ω) (pc : Pc) : Prop where
  agree : ∀ t, pc.pending ≠ some t → (s ∈ st.sessionsOf t ↔ t ∈ st.topics s)
  joining : ∀ t rest, pc = .joining t rest → t ∈ st.topics s
  parting : ∀ leaving t rest, pc = .parting leaving t rest → t ∉ st.topics s
  remaining : ∀ l, pc.remaining = some l → ∀ t ∈ st.topics s, t ∈ l
  gone : pc = .absent → s ∉ st.sessions

theorem linked_init (cfg : Str) (s : ω) : Linked (.init cfg) s .absent := by
  have hempty : ∀ t, t ∉ (SharedState.init cfg : SharedState ω).topics s := by
    intro t
    rw [SharedState.init_eq]
    exact OrdSet.not_mem_empty t
  refine ⟨?_, nofun, nofun, fun l _ t ht => absurd ht (hempty t), ?_⟩
  · intro t _
    rw [SharedState.init_sessionsOf]
    exact iff_of_false (Finset.notMem_empty s) (hempty t)
  · intro _
    rw [SharedState.init_eq]
    exact Finset.notMem_empty s

/-- Away from the point between two sections the two halves agree. -/
theorem Linked.agree_of_pending {st : SharedState ω} {s : ω} {pc : Pc} (h : Linked st s pc)
    (hpc : pc.pending = none) (t : Str) : s ∈ st.sessionsOf t ↔ t ∈ st.topics s := by
  refine h.agree t ?_
  rw [hpc]
  exact Option.some_ne_none t ∘ Eq.symm

theorem Linked.of_settled {st : SharedState ω} {s : ω} {pc : Pc} (hpc : pc.Settled)
    (hagree : ∀ t, s ∈ st.sessionsOf t ↔ t ∈ st.topics s)
    (hremaining : ∀ l, pc.remaining = some l → ∀ t ∈ st.topics s, t ∈ l) : Linked st s pc := by
  obtain ⟨hpending, habsent⟩ := hpc
  refine ⟨fun t _ => hagree t, ?_, ?_, hremaining, fun h => absurd h habsent⟩
  · rintro t rest rfl
    cases hpending
  · rintro leaving t rest rfl
    cases hpending

/-- A session that is gone holds no topic and is in no symbol's set. -/
theorem Linked.not_mem_of_absent {st : SharedState ω} {s : ω} (h : Linked st s .absent)
    (t : Str) : s ∉ st.sessionsOf t := by
  intro ht
  have htopic := (h.agree_of_pending rfl t).mp ht
  exact absurd (h.remaining [] rfl t htopic) List.not_mem_nil

/-! ## Other sessions -/

/-- Nothing that concerns session `s` differs between two states. -/
structure SameView (sys sys' : System ω) (s : ω) : Prop where
  pc : sys'.pc s = sys.pc s
  topics : sys'.shared.topics s = sys.shared.topics s
  sessionsOf : ∀ t, s ∈ sys'.shared.sessionsOf t ↔ s ∈ sys.shared.sessionsOf t
  sessions : s ∈ sys'.shared.sessions ↔ s ∈ sys.shared.sessions

theorem Linked.of_sameView {sys sys' : System ω} {s : ω}
    (h : Linked sys.shared s (sys.pc s)) (hview : SameView sys sys' s) :
    Linked sys'.shared s (sys'.pc s) := by
  obtain ⟨hpc, htopics, hof, hsessions⟩ := hview
  rw [hpc]
  refine ⟨?_, ?_, ?_, ?_, fun habs hs => h.gone habs (hsessions.mp hs)⟩
  · intro t ht
    rw [hof, htopics]
    exact h.agree t ht
  · rw [htopics]
    exact h.joining
  · rw [htopics]
    exact h.parting
  · rw [htopics]
    exact h.remaining

/-- The session whose section an action is. -/
def Action.session : Action ω → Option ω
  | .construct s => some s
  | .accept s => some s
  | .receive s _ => some s
  | .advance s => some s
  | .destroy s => some s
  | .pop => none

/-- A section that sets a symbol leaves the view of every session alone that
is in both of its session sets or in neither. -/
theorem mem_update_sessionsOf {st : SharedState ω} {topic : Str} {X : Finset ω} {s : ω}
    (h : s ∈ X ↔ s ∈ st.sessionsOf topic) (t : Str) :
    s ∈ Function.update st.sessionsOf topic X t ↔ s ∈ st.sessionsOf t := by
  by_cases heq : t = topic
  · subst heq
    rw [Function.update_self]
    exact h
  · rw [Function.update_of_ne heq]

/-- The null pointer that `symbols_[topic]` inserts holds no sessions. -/
theorem sameView_of_null {sys : System ω} {topic : Str}
    (hnull : ∀ sym, sys.shared.symbols topic ≠ some (some sym)) (s : ω) :
    SameView sys { sys with shared := sys.shared.setSymbol topic none, fault := true } s := by
  refine ⟨rfl, rfl, ?_, Iff.rfl⟩
  intro t
  rw [SharedState.sessionsOf_setSymbol_of_null hnull]

variable [DecidableEq ω] {parseJson : JsonParser}

/-- A section of another session that settles a symbol. -/
theorem sameView_settleSymbol {sys : System ω} {topic : Str} {sym sym' : Symbol ω} {s s₀ : ω}
    (hsym : sys.shared.symbols topic = some (some sym)) (hne : s ≠ s₀)
    (hmem : s ∈ sym'.sessions ↔ s ∈ sym.sessions) (edge : Prop) [Decidable edge]
    (type : MsgType) (pc : Pc) :
    SameView sys ((sys.setShared (sys.shared.settleSymbol topic sym' edge type)).goto s₀ pc)
      s := by
  refine ⟨System.goto_pc_of_ne _ hne _, ?_, ?_, ?_⟩
  · simp [System.setShared]
  · simp only [System.goto_shared, System.setShared, SharedState.settleSymbol_sessionsOf]
    refine mem_update_sessionsOf ?_
    rw [SharedState.sessionsOf_of_symbol hsym]
    exact hmem
  · simp [System.setShared]

theorem Move.sameView {sys sys' : System ω} {a : Action ω} (h : Move parseJson sys a sys')
    {s : ω} (hs : ∀ s₀, a.session = some s₀ → s ≠ s₀) : SameView sys sys' s := by
  cases h with
  | @construct s₀ hpc =>
      have hne : s ≠ s₀ := hs s₀ rfl
      exact ⟨System.goto_pc_of_ne _ hne _, SharedState.setTopics_of_ne _ hne _,
        fun _ => Iff.rfl, Iff.rfl⟩
  | @accept s₀ hpc =>
      have hne : s ≠ s₀ := hs s₀ rfl
      refine ⟨System.goto_pc_of_ne _ hne _, rfl, fun _ => Iff.rfl, ?_⟩
      exact Finset.mem_insert.trans (or_iff_right hne)
  | @receive s₀ msg hpc =>
      have hne : s ≠ s₀ := hs s₀ rfl
      exact ⟨System.goto_pc_of_ne _ hne _, rfl, fun _ => Iff.rfl, Iff.rfl⟩
  | @destroy s₀ hpc =>
      have hne : s ≠ s₀ := hs s₀ rfl
      exact ⟨System.goto_pc_of_ne _ hne _, rfl, fun _ => Iff.rfl, Iff.rfl⟩
  | @insertTopic s₀ topic rest hpc =>
      have hne : s ≠ s₀ := hs s₀ rfl
      exact ⟨System.goto_pc_of_ne _ hne _, SharedState.setTopics_of_ne _ hne _,
        fun _ => Iff.rfl, Iff.rfl⟩
  | @joinSymbol s₀ topic rest sym hpc hsym =>
      have hne : s ≠ s₀ := hs s₀ rfl
      exact sameView_settleSymbol hsym hne (Finset.mem_insert.trans (or_iff_right hne)) _ _ _
  | @eraseTopic s₀ leaving topic rest hpc =>
      have hne : s ≠ s₀ := hs s₀ rfl
      exact ⟨System.goto_pc_of_ne _ hne _, SharedState.setTopics_of_ne _ hne _,
        fun _ => Iff.rfl, Iff.rfl⟩
  | @leaveSymbol s₀ leaving topic rest sym hpc hsym =>
      have hne : s ≠ s₀ := hs s₀ rfl
      exact sameView_settleSymbol hsym hne (Finset.mem_erase.trans (and_iff_right hne)) _ _ _
  | nullSymbol hpending hnull => exact sameView_of_null hnull s
  | @eraseSession s₀ hpc =>
      have hne : s ≠ s₀ := hs s₀ rfl
      refine ⟨System.goto_pc_of_ne _ hne _, rfl, fun _ => Iff.rfl, ?_⟩
      exact Finset.mem_erase.trans (and_iff_right hne)
  | pop hq => exact ⟨rfl, rfl, fun _ => Iff.rfl, Iff.rfl⟩
  | popNothing hq => exact ⟨rfl, rfl, fun _ => Iff.rfl, Iff.rfl⟩

/-! ## The session itself -/

section Sections

variable {st : SharedState ω} {s : ω}

theorem Linked.construct (h : Linked st s .absent) :
    Linked (st.setTopics s .empty) s .accepting := by
  refine .of_settled ⟨rfl, nofun⟩ ?_ nofun
  intro t
  rw [SharedState.setTopics_self]
  exact iff_of_false (h.not_mem_of_absent t) (OrdSet.not_mem_empty t)

theorem Linked.accept (h : Linked st s .accepting) : Linked (st.join s) s .idle :=
  .of_settled ⟨rfl, nofun⟩ (h.agree_of_pending rfl) nofun

omit [DecidableEq ω] in
theorem Linked.receive (h : Linked st s .idle) (r : Except JsonError Request) :
    Linked st s (.ofRequest r) := by
  refine .of_settled (Pc.settled_ofRequest r) (h.agree_of_pending rfl) ?_
  rw [Pc.remaining_ofRequest]
  nofun

omit [DecidableEq ω] in
theorem Linked.destroy {pc : Pc} (h : Linked st s pc) (hpc : pc = .accepting ∨ pc = .idle) :
    Linked st s (.unsubscribe true (st.topics s).toList) := by
  have hpending : pc.pending = none := by
    rcases hpc with rfl | rfl <;> rfl
  refine .of_settled (Pc.settled_unsubscribe true _) (h.agree_of_pending hpending) ?_
  rw [Pc.remaining_unsubscribe]
  -- the copy the loop of `leave` runs over
  rintro l ⟨⟩ t ht
  exact ht

theorem Linked.insertTopic {topic : Str} {rest : List Str}
    (h : Linked st s (.subscribing topic rest)) :
    Linked (st.insertTopic s topic) s (.joining topic rest) := by
  have htopics : (st.insertTopic s topic).topics s = (st.topics s).insert topic :=
    SharedState.setTopics_self ..
  refine ⟨?_, ?_, nofun, nofun, nofun⟩
  · intro t ht
    have hne : t ≠ topic := fun heq => ht (congrArg some heq.symm)
    rw [htopics, OrdSet.mem_insert, or_iff_right hne]
    exact h.agree_of_pending rfl t
  · rintro t rest' ⟨⟩
    rw [htopics]
    exact OrdSet.mem_insert.mpr (.inl rfl)

theorem Linked.eraseTopic {leaving : Bool} {topic : Str} {rest : List Str}
    (h : Linked st s (.unsubscribing leaving topic rest)) :
    Linked (st.eraseTopic s topic) s (.parting leaving topic rest) := by
  have htopics : (st.eraseTopic s topic).topics s = (st.topics s).erase topic :=
    SharedState.setTopics_self ..
  refine ⟨?_, nofun, ?_, ?_, nofun⟩
  · intro t ht
    have hne : t ≠ topic := fun heq => ht (congrArg some heq.symm)
    rw [htopics, OrdSet.mem_erase, and_iff_right hne]
    exact h.agree_of_pending rfl t
  · rintro leaving' t rest' ⟨⟩
    rw [htopics]
    exact fun hmem => (OrdSet.mem_erase.mp hmem).1 rfl
  · intro l hl t ht
    rw [htopics] at ht
    obtain ⟨hne, ht⟩ := OrdSet.mem_erase.mp ht
    cases leaving with
    | false => cases hl
    | true =>
        cases hl
        exact (List.mem_cons.mp (h.remaining _ rfl t ht)).resolve_left hne

omit [DecidableEq ω] in
/-- A section that sets the symbol between whose sections the session is, and
sets it right, settles the session. -/
theorem Linked.settle {pc : Pc} {topic : Str} (h : Linked st s pc)
    (hpc : pc.pending = some topic) {st' : SharedState ω} {X : Finset ω}
    (hof : st'.sessionsOf = Function.update st.sessionsOf topic X)
    (htopics : st'.topics = st.topics) (hX : s ∈ X ↔ topic ∈ st.topics s) (t : Str) :
    s ∈ st'.sessionsOf t ↔ t ∈ st'.topics s := by
  rw [hof, htopics]
  by_cases heq : t = topic
  · subst heq
    rw [Function.update_self]
    exact hX
  · rw [Function.update_of_ne heq]
    refine h.agree t ?_
    rw [hpc]
    exact fun hpending => heq (Option.some.inj hpending).symm

theorem Linked.joinSymbol {topic : Str} {rest : List Str} (h : Linked st s (.joining topic rest))
    (sym : Symbol ω) (edge : Prop) [Decidable edge] :
    Linked (st.settleSymbol topic (sym.join s) edge .subscribe) s (.subscribe rest) := by
  refine .of_settled (Pc.settled_subscribe rest) ?_ ?_
  · exact h.settle rfl (SharedState.settleSymbol_sessionsOf ..)
      (SharedState.settleSymbol_topics ..)
      (iff_of_true (Finset.mem_insert_self s _) (h.joining topic rest rfl))
  · rw [Pc.remaining_subscribe]
    nofun

theorem Linked.leaveSymbol {leaving : Bool} {topic : Str} {rest : List Str}
    (h : Linked st s (.parting leaving topic rest)) (sym : Symbol ω) (edge : Prop)
    [Decidable edge] :
    Linked (st.settleSymbol topic (sym.leave s).1 edge .unsubscribe) s
      (.unsubscribe leaving rest) := by
  refine .of_settled (Pc.settled_unsubscribe leaving rest) ?_ ?_
  · exact h.settle rfl (SharedState.settleSymbol_sessionsOf ..)
      (SharedState.settleSymbol_topics ..)
      (iff_of_false (Finset.notMem_erase s _) (h.parting leaving topic rest rfl))
  · rw [Pc.remaining_unsubscribe, SharedState.settleSymbol_topics]
    intro l hl
    cases leaving with
    | false => cases hl
    | true => exact h.remaining l hl

theorem Linked.eraseSession (h : Linked st s .erasing) : Linked (st.eraseSession s) s .absent :=
  ⟨fun t _ => h.agree_of_pending rfl t, nofun, nofun, h.remaining,
    fun _ => Finset.notMem_erase s st.sessions⟩

end Sections

theorem linked_goto {sys : System ω} {st : SharedState ω} {s : ω} {pc : Pc}
    (h : Linked st s pc) :
    Linked ((sys.setShared st).goto s pc).shared s (((sys.setShared st).goto s pc).pc s) := by
  rw [System.goto_pc_self]
  exact h

/-- A section of the session itself. -/
theorem Linked.move {sys sys' : System ω} {a : Action ω} {s : ω}
    (h : Linked sys.shared s (sys.pc s)) (hmove : Move parseJson sys a sys')
    (hs : a.session = some s) : Linked sys'.shared s (sys'.pc s) := by
  cases hmove with
  | construct hpc =>
      cases hs
      exact linked_goto (hpc ▸ h).construct
  | accept hpc =>
      cases hs
      exact linked_goto (hpc ▸ h).accept
  | receive msg hpc =>
      cases hs
      exact linked_goto ((hpc ▸ h).receive _)
  | destroy hpc =>
      cases hs
      exact linked_goto (h.destroy hpc)
  | insertTopic hpc =>
      cases hs
      exact linked_goto (hpc ▸ h).insertTopic
  | joinSymbol hpc hsym =>
      cases hs
      exact linked_goto ((hpc ▸ h).joinSymbol _ _)
  | eraseTopic hpc =>
      cases hs
      exact linked_goto (hpc ▸ h).eraseTopic
  | leaveSymbol hpc hsym =>
      cases hs
      exact linked_goto ((hpc ▸ h).leaveSymbol _ _)
  | nullSymbol hpending hnull => exact h.of_sameView (sameView_of_null hnull s)
  | eraseSession hpc =>
      cases hs
      exact linked_goto (hpc ▸ h).eraseSession
  | pop hq => cases hs
  | popNothing hq => cases hs

theorem linked_step {sys sys' : System ω} {a : Action ω}
    (h : ∀ s, Linked sys.shared s (sys.pc s)) (hstep : step parseJson sys a = some sys') (s : ω) :
    Linked sys'.shared s (sys'.pc s) := by
  have hmove := (move_of_step hstep).2
  by_cases hs : a.session = some s
  · exact (h s).move hmove hs
  · refine (h s).of_sameView (hmove.sameView ?_)
    rintro s₀ hs₀ rfl
    exact hs hs₀

theorem linked_run {cfg : Str} {as : List (Action ω)} {sys : System ω}
    (hrun : Runs.run (step parseJson) (.start cfg) as = some sys) :
    ∀ s, Linked sys.shared s (sys.pc s) :=
  Runs.run_inv (P := fun sys => ∀ s, Linked sys.shared s (sys.pc s)) (G := fun _ => True)
    (fun h _ hstep => linked_step h hstep) (linked_init cfg) (fun _ _ => trivial) hrun

/-- **In every reachable state the sets hold live sessions only, a session
between its procedures is in the set of exactly the topics it holds, and one
whose `leave` has returned is in no set at all.** -/
theorem sessions_linked {cfg : Str} {as : List (Action ω)} {sys : System ω}
    (hrun : Runs.run (step parseJson) (.start cfg) as = some sys) :
    (∀ t, ∀ s ∈ sys.shared.sessionsOf t, sys.pc s ≠ .absent) ∧
      (∀ s ∈ sys.shared.sessions, sys.pc s ≠ .absent) ∧
      (∀ s, sys.pc s = .accepting ∨ sys.pc s = .idle →
        ∀ t, s ∈ sys.shared.sessionsOf t ↔ t ∈ sys.shared.topics s) ∧
      ∀ s, sys.pc s = .absent →
        (∀ t, s ∉ sys.shared.sessionsOf t) ∧ s ∉ sys.shared.sessions := by
  have hlinked := linked_run hrun
  have hgone : ∀ s, sys.pc s = .absent →
      (∀ t, s ∉ sys.shared.sessionsOf t) ∧ s ∉ sys.shared.sessions := by
    intro s hpc
    have habsent : Linked sys.shared s .absent := hpc ▸ hlinked s
    exact ⟨habsent.not_mem_of_absent, habsent.gone rfl⟩
  refine ⟨fun t s ht hpc => (hgone s hpc).1 t ht, fun s hs hpc => (hgone s hpc).2 hs, ?_, hgone⟩
  intro s hpc
  refine (hlinked s).agree_of_pending ?_
  rcases hpc with hpc | hpc <;> rw [hpc] <;> rfl

theorem sessions_linked_two_sessions :
    ∃ sys : System Nat,
      Runs.run (step clientParser) (.start twoTopics) twoSessions = some sys ∧
        (∀ t, ∀ s ∈ sys.shared.sessionsOf t, sys.pc s ≠ .absent) ∧
        (∀ s ∈ sys.shared.sessions, sys.pc s ≠ .absent) ∧
        (∀ s, sys.pc s = .accepting ∨ sys.pc s = .idle →
          ∀ t, s ∈ sys.shared.sessionsOf t ↔ t ∈ sys.shared.topics s) ∧
        ∀ s, sys.pc s = .absent →
          (∀ t, s ∉ sys.shared.sessionsOf t) ∧ s ∉ sys.shared.sessions := by
  have hrun : Runs.run (step clientParser) (.start twoTopics) twoSessions = some _ := rfl
  exact ⟨_, hrun, sessions_linked hrun⟩

end SravzBackend.Web
