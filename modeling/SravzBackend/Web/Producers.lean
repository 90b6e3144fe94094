/-
# `Web.Producers` — who is inside `push`

The event queue is lock-free and takes one producer at a time.  A session
pushes under the mutex of the symbol it joins or leaves, and there is a mutex
for every symbol but none for the queue.

Here the section under a symbol's mutex is taken apart: a session locks the
mutex, tests, enters `push` and leaves it, and unlocks.  All other steps are
those of `Web.Sessions`, and `run_section` says that a section nobody
interrupts does what its one step there does.

`pushes_exclusive_iff`: exactly when no two sessions can be inside `push` at
the same time, in any run of messages that name given topics.
-/
import SravzBackend.Web.Requests

namespace SravzBackend.Web.Producers

variable {ω : Type}

/-- How far a session that has locked the mutex of a symbol has come: before
its test, inside `push`, or past it. -/
inductive Phase where
  | locked
  | pushing
  | pushed
deriving DecidableEq

/-- `holder t` is the session that has locked the mutex of the symbol of `t`.
A session with a phase is at the `joining` or the `parting` of its section. -/
structure State (ω : Type) where
  sys : System ω
  phase : ω → Option Phase
  holder : Str → Option ω

namespace State

def start (cfg : Str) : State ω := ⟨.start cfg, fun _ => none, fun _ => none⟩

def setShared (x : State ω) (st : SharedState ω) : State ω :=
  { x with sys := x.sys.setShared st }

/-- What dereferencing `symbols_[topic]` leads to. -/
def deref (x : State ω) (topic : Str) (next : Symbol ω → Option (State ω)) : Option (State ω) :=
  match x.sys.shared.symbolsAt topic with
  | (_, some sym) => next sym
  | (st, none) => some { x with sys := { x.sys with shared := st, fault := true } }

variable [DecidableEq ω]

def setPhase (x : State ω) (s : ω) (p : Option Phase) : State ω :=
  { x with phase := Function.update x.phase s p }

def setHolder (x : State ω) (topic : Str) (s : Option ω) : State ω :=
  { x with holder := Function.update x.holder topic s }

/-- `lock_guard`, which waits while the mutex is locked. -/
def lock (x : State ω) (s : ω) (topic : Str) : Option (State ω) :=
  x.deref topic fun _ =>
    if (x.holder topic).isNone then some ((x.setHolder topic (some s)).setPhase s (some .locked))
    else none

/-- The end of the body of a loop, where the mutex is unlocked. -/
def unlock (x : State ω) (s : ω) (topic : Str) (pc : Pc) : State ω :=
  (({ x with sys := x.sys.goto s pc } : State ω).setHolder topic none).setPhase s none

/-- The section of `websocket_subscribe_to_symbols`, from the lock on. -/
def subscribing (x : State ω) (s : ω) (topic : Str) (rest : List Str) : Phase → Option (State ω)
  | .locked => x.deref topic fun sym =>
      some (x.setPhase s (if sym.sessions.card = 0 then some .pushing else some .pushed))
  | .pushing =>
      some ((x.setShared (x.sys.shared.push (.subscribe, topic))).setPhase s (some .pushed))
  | .pushed => x.deref topic fun sym =>
      some ((x.setShared (x.sys.shared.setSymbol topic (some (sym.join s)))).unlock s topic
        (.subscribe rest))

/-- The section of `websocket_unsubscribe_to_symbols`, from the lock on. -/
def unsubscribing (x : State ω) (s : ω) (leaving : Bool) (topic : Str) (rest : List Str) :
    Phase → Option (State ω)
  | .locked => x.deref topic fun sym =>
      let (sym, left) := sym.leave s
      some ((x.setShared (x.sys.shared.setSymbol topic (some sym))).setPhase s
        (if left ≠ 0 then if sym.sessions.card = 0 then some .pushing else some .pushed
          else some .pushed))
  | .pushing =>
      some ((x.setShared (x.sys.shared.push (.unsubscribe, topic))).setPhase s (some .pushed))
  | .pushed => some (x.unlock s topic (.unsubscribe leaving rest))

end State

section Steps

variable [DecidableEq ω] (parseJson : JsonParser)

/-- A step outside the sections of symbols. -/
def outside (x : State ω) (a : Action ω) : Option (State ω) :=
  (Web.step parseJson x.sys a).map fun sys => { x with sys := sys }

/-- The actions are those of `Web.Sessions`; in the section of a symbol
`advance` takes one of the smaller steps. -/
def step (x : State ω) (a : Action ω) : Option (State ω) :=
  match a with
  | .advance s =>
      if x.sys.fault then none
      else
        match x.sys.pc s with
        | .joining topic rest =>
            match x.phase s with
            | none => x.lock s topic
            | some p => x.subscribing s topic rest p
        | .parting leaving topic rest =>
            match x.phase s with
            | none => x.lock s topic
            | some p => x.unsubscribing s leaving topic rest p
        | _ => outside parseJson x a
  | _ => outside parseJson x a

end Steps

/-- No two sessions are inside `push`. -/
def Exclusive (x : State ω) : Prop :=
  ∀ s s', x.phase s = some .pushing → x.phase s' = some .pushing → s = s'

/-! ## What a step can do -/

/-- A change of the shared state that concerns neither the sessions' topics nor
which symbols there are. -/
structure Keeps (st st' : SharedState ω) : Prop where
  topics : st'.topics = st.topics
  intact : ∀ cfg, st.Intact cfg → st'.Intact cfg

theorem keeps_refl (st : SharedState ω) : Keeps st st := ⟨rfl, fun _ h => h⟩

theorem keeps_push (st : SharedState ω) (ev : SubscriberEvent) : Keeps st (st.push ev) :=
  ⟨rfl, fun _ h => h.of_symbols rfl⟩

theorem keeps_setSymbol {st : SharedState ω} {topic : Str} {sym : Symbol ω}
    (h : st.symbols topic = some (some sym)) (sym' : Symbol ω) :
    Keeps st (st.setSymbol topic (some sym')) := by
  refine ⟨rfl, fun cfg hst => ?_⟩
  have hsettle := hst.settleSymbol (hst.mem_of_symbol h) sym' False .subscribe
  rwa [SharedState.settleSymbol, if_neg not_false] at hsettle

section Moves

variable [DecidableEq ω] {parseJson : JsonParser}

/-- The steps: one outside the sections, a null symbol, the lock, a step up to
the unlock, and the unlock. -/
inductive Move (parseJson : JsonParser) (x : State ω) : Action ω → State ω → Prop where
  | outside {a sys} (hpending : ∀ s, a = .advance s → (x.sys.pc s).pending = none)
      (h : Web.step parseJson x.sys a = some sys) : Move parseJson x a { x with sys := sys }
  | null {s topic} (hpending : (x.sys.pc s).pending = some topic)
      (hnull : ∀ sym, x.sys.shared.symbols topic ≠ some (some sym)) :
      Move parseJson x (.advance s) { x with
        sys := { x.sys with shared := x.sys.shared.setSymbol topic none, fault := true } }
  | lock {s topic sym} (hpending : (x.sys.pc s).pending = some topic)
      (hsym : x.sys.shared.symbols topic = some (some sym)) (hfree : x.holder topic = none) :
      Move parseJson x (.advance s) ((x.setHolder topic (some s)).setPhase s (some .locked))
  | inside {s topic st p p'} (hpending : (x.sys.pc s).pending = some topic)
      (hphase : x.phase s = some p) (hst : Keeps x.sys.shared st) :
      Move parseJson x (.advance s) ((x.setShared st).setPhase s p')
  | unlock {s topic st pc p} (hpending : (x.sys.pc s).pending = some topic)
      (hphase : x.phase s = some p) (hst : Keeps x.sys.shared st)
      (hpc : ∀ t ∈ pc.ahead, t ∈ (x.sys.pc s).ahead) :
      Move parseJson x (.advance s) ((x.setShared st).unlock s topic pc)

omit [DecidableEq ω] in
/-- A dereferenced symbol is there, or the process ends. -/
theorem deref_eq_some {x y : State ω} {topic : Str} {next : Symbol ω → Option (State ω)}
    (h : x.deref topic next = some y) :
    (∃ sym, x.sys.shared.symbols topic = some (some sym) ∧ next sym = some y) ∨
      (∀ sym, x.sys.shared.symbols topic ≠ some (some sym)) ∧ y = { x with
        sys := { x.sys with shared := x.sys.shared.setSymbol topic none, fault := true } } := by
  by_cases hsym : ∃ sym, x.sys.shared.symbols topic = some (some sym)
  · obtain ⟨sym, hsym⟩ := hsym
    rw [State.deref, SharedState.symbolsAt, hsym] at h
    exact .inl ⟨sym, hsym, h⟩
  · have hnull := not_exists.mp hsym
    rw [State.deref, SharedState.symbolsAt_of_null hnull] at h
    exact .inr ⟨hnull, (Option.some.inj h).symm⟩

theorem move_of_lock {x y : State ω} {s : ω} {topic : Str}
    (hpending : (x.sys.pc s).pending = some topic) (h : x.lock s topic = some y) :
    Move parseJson x (.advance s) y := by
  rcases deref_eq_some h with ⟨sym, hsym, hlock⟩ | ⟨hnull, rfl⟩
  · split at hlock
    · next hfree =>
        cases hlock
        exact .lock hpending hsym (Option.isNone_iff_eq_none.mp hfree)
    · cases hlock
  · exact .null hpending hnull

theorem move_of_subscribing {x y : State ω} {s : ω} {topic : Str} {rest : List Str} {p : Phase}
    (hpc : x.sys.pc s = .joining topic rest) (hphase : x.phase s = some p)
    (h : x.subscribing s topic rest p = some y) : Move parseJson x (.advance s) y := by
  have hpending : (x.sys.pc s).pending = some topic := by
    rw [hpc]
    rfl
  cases p with
  | locked =>
      rcases deref_eq_some h with ⟨sym, hsym, hnext⟩ | ⟨hnull, rfl⟩
      · cases hnext
        exact .inside hpending hphase (keeps_refl _)
      · exact .null hpending hnull
  | pushing =>
      cases h
      exact .inside hpending hphase (keeps_push _ _)
  | pushed =>
      rcases deref_eq_some h with ⟨sym, hsym, hnext⟩ | ⟨hnull, rfl⟩
      · cases hnext
        refine .unlock hpending hphase (keeps_setSymbol hsym _) ?_
        rw [Pc.ahead_subscribe, hpc]
        exact fun t ht => List.mem_cons_of_mem topic ht
      · exact .null hpending hnull

theorem move_of_unsubscribing {x y : State ω} {s : ω} {leaving : Bool} {topic : Str}
    {rest : List Str} {p : Phase} (hpc : x.sys.pc s = .parting leaving topic rest)
    (hphase : x.phase s = some p) (h : x.unsubscribing s leaving topic rest p = some y) :
    Move parseJson x (.advance s) y := by
  have hpending : (x.sys.pc s).pending = some topic := by
    rw [hpc]
    rfl
  cases p with
  | locked =>
      rcases deref_eq_some h with ⟨sym, hsym, hnext⟩ | ⟨hnull, rfl⟩
      · cases hnext
        exact .inside hpending hphase (keeps_setSymbol hsym _)
      · exact .null hpending hnull
  | pushing =>
      cases h
      exact .inside hpending hphase (keeps_push _ _)
  | pushed =>
      cases h
      refine .unlock hpending hphase (keeps_refl _) ?_
      rw [Pc.ahead_unsubscribe, hpc]
      exact fun t ht => List.mem_cons_of_mem topic ht

theorem move_of_outside {x y : State ω} {a : Action ω}
    (hpending : ∀ s, a = .advance s → (x.sys.pc s).pending = none)
    (h : outside parseJson x a = some y) : Move parseJson x a y := by
  obtain ⟨sys, hsys, rfl⟩ := Option.map_eq_some_iff.mp h
  exact .outside hpending hsys

theorem move_of_step {x y : State ω} {a : Action ω} (h : step parseJson x a = some y) :
    Move parseJson x a y := by
  cases a with
  | advance s =>
      rw [step] at h
      split at h
      · cases h
      · have hout : (x.sys.pc s).pending = none →
            ∀ s', Action.advance s = .advance s' → (x.sys.pc s').pending = none := by
          rintro hpending _ ⟨⟩
          exact hpending
        cases hpc : x.sys.pc s with
        | joining topic rest =>
            rw [hpc] at h
            cases hphase : x.phase s with
            | none =>
                rw [hphase] at h
                exact move_of_lock (by rw [hpc]; rfl) h
            | some p =>
                rw [hphase] at h
                exact move_of_subscribing hpc hphase h
        | parting leaving topic rest =>
            rw [hpc] at h
            cases hphase : x.phase s with
            | none =>
                rw [hphase] at h
                exact move_of_lock (by rw [hpc]; rfl) h
            | some p =>
                rw [hphase] at h
                exact move_of_unsubscribing hpc hphase h
        | absent => exact move_of_outside (hout (by rw [hpc]; rfl)) (by rwa [hpc] at h)
        | accepting => exact move_of_outside (hout (by rw [hpc]; rfl)) (by rwa [hpc] at h)
        | idle => exact move_of_outside (hout (by rw [hpc]; rfl)) (by rwa [hpc] at h)
        | subscribing topic rest =>
            exact move_of_outside (hout (by rw [hpc]; rfl)) (by rwa [hpc] at h)
        | unsubscribing leaving topic rest =>
            exact move_of_outside (hout (by rw [hpc]; rfl)) (by rwa [hpc] at h)
        | erasing => exact move_of_outside (hout (by rw [hpc]; rfl)) (by rwa [hpc] at h)
  | construct s => exact move_of_outside nofun h
  | accept s => exact move_of_outside nofun h
  | receive s msg => exact move_of_outside nofun h
  | destroy s => exact move_of_outside nofun h
  | pop => exact move_of_outside nofun h

end Moves

/-! ## Who holds a mutex -/

/-- A session inside a section holds the mutex of the topic it is at, which has
a symbol; the rest is what `Web.Sessions` keeps. -/
structure Held (cfg : Str) (T : Str → Prop) (x : State ω) : Prop where
  named : Named T x.sys
  intact : x.sys.fault = false → x.sys.shared.Intact cfg
  holding : ∀ s p, x.phase s = some p →
    ∃ topic, (x.sys.pc s).pending = some topic ∧ x.holder topic = some s ∧ topic ∈ split cfg

theorem held_start (cfg : Str) (T : Str → Prop) : Held cfg T (.start cfg : State ω) where
  named := named_start T cfg
  intact _ := SharedState.init_intact cfg
  holding _ _ hphase := nomatch hphase

section Holding

variable [DecidableEq ω] {parseJson : JsonParser} {cfg : Str} {T : Str → Prop}

/-- A step moves no session that is at the symbol of a topic, but its own. -/
theorem pc_of_step {sys sys' : System ω} {a : Action ω} (h : Web.step parseJson sys a = some sys')
    (s : ω) : sys'.pc s = sys.pc s ∨ a = .advance s ∨ (sys.pc s).pending = none := by
  have hgoto : ∀ {s' : ω} (pc : Pc) (st : SharedState ω),
      (Pc.pending (sys.pc s') = none ∨ a = .advance s') →
        ((sys.setShared st).goto s' pc).pc s = sys.pc s ∨ a = .advance s ∨
          (sys.pc s).pending = none := by
    intro s' pc st hs'
    by_cases hs : s = s'
    · subst hs
      exact .inr hs'.symm
    · exact .inl (System.goto_pc_of_ne _ hs pc)
  cases (Web.move_of_step h).2 with
  | construct hpc => exact hgoto _ _ (.inl (by rw [hpc]; rfl))
  | accept hpc => exact hgoto _ _ (.inl (by rw [hpc]; rfl))
  | receive msg hpc => exact hgoto _ sys.shared (.inl (by rw [hpc]; rfl))
  | destroy hpc =>
      refine hgoto _ sys.shared (.inl ?_)
      rcases hpc with hpc | hpc <;> rw [hpc] <;> rfl
  | insertTopic hpc => exact hgoto _ _ (.inr rfl)
  | joinSymbol hpc hsym => exact hgoto _ _ (.inr rfl)
  | eraseTopic hpc => exact hgoto _ _ (.inr rfl)
  | leaveSymbol hpc hsym => exact hgoto _ _ (.inr rfl)
  | nullSymbol hpending hnull => exact .inl rfl
  | eraseSession hpc => exact hgoto _ _ (.inr rfl)
  | pop hq => exact .inl rfl
  | popNothing hq => exact .inl rfl

theorem fault_of_step {x y : State ω} {a : Action ω} (h : step parseJson x a = some y) :
    x.sys.fault = false := by
  have hout : ∀ {a}, outside parseJson x a = some y → x.sys.fault = false := by
    intro a h
    obtain ⟨sys, hsys, _⟩ := Option.map_eq_some_iff.mp h
    exact (Web.move_of_step hsys).1
  cases a with
  | advance s =>
      rw [step] at h
      split at h
      · cases h
      · next hfault => exact Bool.eq_false_of_not_eq_true hfault
  | construct s => exact hout h
  | accept s => exact hout h
  | receive s msg => exact hout h
  | destroy s => exact hout h
  | pop => exact hout h

theorem Held.step {x y : State ω} {a : Action ω} (h : Held cfg T x) (ha : a.Names parseJson T)
    (hstep : step parseJson x a = some y) : Held cfg T y := by
  have hintact := h.intact (fault_of_step hstep)
  cases move_of_step hstep with
  | outside hpending hsys =>
      refine ⟨h.named.step ha hsys, intact_step hintact hsys, ?_⟩
      intro s p hphase
      obtain ⟨topic, htopic, hrest⟩ := h.holding s p hphase
      refine ⟨topic, ?_, hrest⟩
      rcases pc_of_step hsys s with hpc | rfl | hnone
      · exact (congrArg Pc.pending hpc).trans htopic
      · cases (hpending s rfl).symm.trans htopic
      · cases hnone.symm.trans htopic
  | null hpending hnull => exact ⟨⟨h.named.ahead, h.named.topics⟩, nofun, h.holding⟩
  | @lock s topic sym hpending hsym hfree =>
      have hcfg : topic ∈ split cfg := hintact.mem_of_symbol hsym
      refine ⟨h.named, h.intact, ?_⟩
      intro s' p hphase
      by_cases hs : s' = s
      · subst hs
        exact ⟨topic, hpending, Function.update_self .., hcfg⟩
      · obtain ⟨topic', hpending', hholder', hcfg'⟩ :=
          h.holding s' p ((Function.update_of_ne hs _ _).symm.trans hphase)
        have hne : topic' ≠ topic := by
          rintro rfl
          cases hfree.symm.trans hholder'
        exact ⟨topic', hpending', (Function.update_of_ne hne _ _).trans hholder', hcfg'⟩
  | @inside s topic st p p' hpending hphase hst =>
      refine ⟨h.named.setShared hst.topics, fun hfault => hst.intact cfg hintact, ?_⟩
      intro s' q hq
      by_cases hs : s' = s
      · subst hs
        exact h.holding s' p hphase
      · exact h.holding s' q ((Function.update_of_ne hs _ _).symm.trans hq)
  | @unlock s topic st pc p hpending hphase hst hpc =>
      obtain ⟨topic₁, hpending₁, hholder, _⟩ := h.holding s p hphase
      cases hpending.symm.trans hpending₁
      have hahead : ∀ t ∈ pc.ahead, T t := fun t ht => h.named.ahead s t (hpc t ht)
      refine ⟨(h.named.setShared hst.topics).goto hahead, fun hfault => hst.intact cfg hintact, ?_⟩
      intro s' q hq
      have hout : ((x.setShared st).unlock s topic pc).phase s = none := Function.update_self ..
      have hs : s' ≠ s := by
        rintro rfl
        cases hout.symm.trans hq
      obtain ⟨topic', hpending', hholder', hcfg'⟩ :=
        h.holding s' q ((Function.update_of_ne hs _ _).symm.trans hq)
      have hne : topic' ≠ topic := by
        rintro rfl
        exact hs (Option.some.inj (hholder'.symm.trans hholder))
      refine ⟨topic', ?_, (Function.update_of_ne hne _ _).trans hholder', hcfg'⟩
      exact (congrArg Pc.pending (System.goto_pc_of_ne _ hs pc)).trans hpending'

theorem held_run {as : List (Action ω)} {x : State ω} (hnames : ∀ a ∈ as, a.Names parseJson T)
    (hrun : Runs.run (Producers.step parseJson) (.start cfg) as = some x) : Held cfg T x :=
  Runs.run_inv (fun h ha hstep => Held.step h ha hstep) (held_start cfg T) hnames hrun

omit [DecidableEq ω] in
/-- Two sessions in a section of the same topic are one. -/
theorem Held.eq_of_pending {x : State ω} (h : Held cfg T x) {s s' : ω} {p p' : Phase}
    (hs : x.phase s = some p) (hs' : x.phase s' = some p')
    (hsame : (x.sys.pc s).pending = (x.sys.pc s').pending) : s = s' := by
  obtain ⟨topic, hpending, hholder, _⟩ := h.holding s p hs
  obtain ⟨topic', hpending', hholder', _⟩ := h.holding s' p' hs'
  cases hpending.symm.trans (hsame.trans hpending')
  exact Option.some.inj (hholder.symm.trans hholder')

/-- What the mutexes do ensure: in every run, no two sessions are inside `push`
for the same topic. -/
theorem same_topic_exclusive {as : List (Action ω)} {x : State ω}
    (hrun : Runs.run (Producers.step parseJson) (.start cfg) as = some x) {s s' : ω}
    (hs : x.phase s = some .pushing) (hs' : x.phase s' = some .pushing)
    (hsame : (x.sys.pc s).pending = (x.sys.pc s').pending) : s = s' := by
  have hnames : ∀ a ∈ as, a.Names parseJson fun _ => True := by
    intro a _
    cases a <;> simp [Action.Names]
  exact (held_run hnames hrun).eq_of_pending hs hs' hsame

end Holding

/-! ## A section nobody interrupts -/

/-- Session `s` is in a section of `topic`, and nothing else differs from `x`
but the system. -/
def State.inside [DecidableEq ω] (x : State ω) (s : ω) (topic : Str) (p : Phase) (sys : System ω) :
    State ω :=
  ⟨sys, Function.update x.phase s (some p), Function.update x.holder topic (some s)⟩

section Sections

variable [DecidableEq ω] {parseJson : JsonParser} {x : State ω} {s : ω} {topic : Str}
  {rest : List Str} {sym : Symbol ω}

theorem inside_setPhase (p p' : Phase) (sys : System ω) :
    (x.inside s topic p sys).setPhase s (some p') = x.inside s topic p' sys := by
  rw [State.setPhase, State.inside, Function.update_idem]
  rfl

theorem inside_unlock (hphase : x.phase s = none) (hfree : x.holder topic = none) (p : Phase)
    (sys : System ω) (pc : Pc) :
    (x.inside s topic p sys).unlock s topic pc = { x with sys := sys.goto s pc } := by
  have hphase' : Function.update (Function.update x.phase s (some p)) s none = x.phase := by
    rw [Function.update_idem, ← hphase, Function.update_eq_self]
  have hholder' : Function.update (Function.update x.holder topic (some s)) topic none =
      x.holder := by
    rw [Function.update_idem, ← hfree, Function.update_eq_self]
  show State.mk (sys.goto s pc) (Function.update (Function.update x.phase s (some p)) s none)
    (Function.update (Function.update x.holder topic (some s)) topic none) = _
  rw [hphase', hholder']

omit [DecidableEq ω] in
theorem deref_of_symbol {next : Symbol ω → Option (State ω)}
    (hsym : x.sys.shared.symbols topic = some (some sym)) : x.deref topic next = next sym := by
  rw [State.deref, SharedState.symbolsAt, hsym]

omit [DecidableEq ω] in
theorem deref_of_null {next : Symbol ω → Option (State ω)}
    (hnull : ∀ sym, x.sys.shared.symbols topic ≠ some (some sym)) :
    x.deref topic next = some { x with
      sys := { x.sys with shared := x.sys.shared.setSymbol topic none, fault := true } } := by
  rw [State.deref, SharedState.symbolsAt_of_null hnull]

theorem deref_inside {p : Phase} {sys : System ω} {next : Symbol ω → Option (State ω)}
    (hsym : sys.shared.symbols topic = some (some sym)) :
    (x.inside s topic p sys).deref topic next = next sym :=
  deref_of_symbol hsym

/-- Outside the sections a step is one of `Web.Sessions`. -/
theorem step_outside {a : Action ω} {sys : System ω}
    (hpending : ∀ s, a = .advance s → (x.sys.pc s).pending = none)
    (h : Web.step parseJson x.sys a = some sys) :
    step parseJson x a = some { x with sys := sys } := by
  have hout : outside parseJson x a = some { x with sys := sys } := by
    rw [outside, h]
    rfl
  cases a with
  | advance s =>
      have hnone := hpending s rfl
      rw [step, if_neg (Bool.eq_false_iff.mp (Web.move_of_step h).1)]
      cases hpc : x.sys.pc s with
      | joining topic rest =>
          rw [hpc] at hnone
          cases hnone
      | parting leaving topic rest =>
          rw [hpc] at hnone
          cases hnone
      | _ => exact hout
  | _ => exact hout

theorem step_lock (hfault : x.sys.fault = false) (hpending : (x.sys.pc s).pending = some topic)
    (hphase : x.phase s = none) : step parseJson x (.advance s) = x.lock s topic := by
  rw [step, if_neg (Bool.eq_false_iff.mp hfault)]
  cases hpc : x.sys.pc s with
  | joining topic' rest =>
      rw [hpc] at hpending
      cases hpending
      rw [hphase]
  | parting leaving topic' rest =>
      rw [hpc] at hpending
      cases hpending
      rw [hphase]
  | _ =>
      rw [hpc] at hpending
      cases hpending

theorem lock_of_symbol (hsym : x.sys.shared.symbols topic = some (some sym))
    (hfree : x.holder topic = none) : x.lock s topic = some (x.inside s topic .locked x.sys) := by
  rw [State.lock, deref_of_symbol hsym, hfree]
  rfl

theorem step_subscribing {p : Phase} {sys : System ω} (hfault : sys.fault = false)
    (hpc : sys.pc s = .joining topic rest) :
    step parseJson (x.inside s topic p sys) (.advance s) =
      (x.inside s topic p sys).subscribing s topic rest p := by
  have hfault' : ¬ (x.inside s topic p sys).sys.fault = true := Bool.eq_false_iff.mp hfault
  have hpc' : (x.inside s topic p sys).sys.pc s = .joining topic rest := hpc
  have hphase : (x.inside s topic p sys).phase s = some p := Function.update_self ..
  rw [step, if_neg hfault', hpc', hphase]

theorem step_unsubscribing {p : Phase} {sys : System ω} {leaving : Bool}
    (hfault : sys.fault = false) (hpc : sys.pc s = .parting leaving topic rest) :
    step parseJson (x.inside s topic p sys) (.advance s) =
      (x.inside s topic p sys).unsubscribing s leaving topic rest p := by
  have hfault' : ¬ (x.inside s topic p sys).sys.fault = true := Bool.eq_false_iff.mp hfault
  have hpc' : (x.inside s topic p sys).sys.pc s = .parting leaving topic rest := hpc
  have hphase : (x.inside s topic p sys).phase s = some p := Function.update_self ..
  rw [step, if_neg hfault', hpc', hphase]

/-- The steps of a section from the lock on, with a push if the change is an
edge. -/
theorem run_locked (topic : Str) (edge : Prop) [Decidable edge] (st st' : SharedState ω)
    {y : State ω}
    (hlock : step parseJson x (.advance s) = some (x.inside s topic .locked x.sys))
    (htest : step parseJson (x.inside s topic .locked x.sys) (.advance s) =
      some (x.inside s topic (if edge then .pushing else .pushed) (x.sys.setShared st)))
    (hpush : step parseJson (x.inside s topic .pushing (x.sys.setShared st)) (.advance s) =
      some (x.inside s topic .pushed (x.sys.setShared st')))
    (hunlock : step parseJson (x.inside s topic .pushed
      (x.sys.setShared (if edge then st' else st))) (.advance s) = some y) :
    ∃ n, Runs.run (step parseJson) x (List.replicate n (.advance s)) = some y := by
  by_cases hedge : edge
  · rw [if_pos hedge] at htest hunlock
    refine ⟨4, (Runs.run_cons_of_step hlock _).trans ?_⟩
    refine (Runs.run_cons_of_step htest _).trans ?_
    refine (Runs.run_cons_of_step hpush _).trans ?_
    exact Runs.run_cons_of_step hunlock []
  · rw [if_neg hedge] at htest hunlock
    refine ⟨3, (Runs.run_cons_of_step hlock _).trans ?_⟩
    refine (Runs.run_cons_of_step htest _).trans ?_
    exact Runs.run_cons_of_step hunlock []

/-- The section of `websocket_subscribe_to_symbols`, in a row. -/
theorem run_joining (hfault : x.sys.fault = false) (hpc : x.sys.pc s = .joining topic rest)
    (hphase : x.phase s = none) (hfree : x.holder topic = none)
    (hsym : x.sys.shared.symbols topic = some (some sym)) :
    ∃ n, Runs.run (step parseJson) x (List.replicate n (.advance s)) = some { x with
      sys := (x.sys.setShared (x.sys.shared.settleSymbol topic (sym.join s)
        (x.sys.shared.sessionsOf topic = ∅) .subscribe)).goto s (.subscribe rest) } := by
  have hsection : ∀ (st : SharedState ω) (p : Phase),
      step parseJson (x.inside s topic p (x.sys.setShared st)) (.advance s) =
        (x.inside s topic p (x.sys.setShared st)).subscribing s topic rest p :=
    fun _ _ => step_subscribing hfault hpc
  rw [SharedState.settleSymbol, SharedState.sessionsOf_of_symbol hsym]
  set after := if sym.sessions = ∅ then x.sys.shared.push (.subscribe, topic) else x.sys.shared
    with hafter
  have hsym' : (x.sys.setShared after).shared.symbols topic = some (some sym) := by
    rw [hafter]
    split <;> exact hsym
  refine run_locked topic (sym.sessions = ∅) x.sys.shared
    (x.sys.shared.push (.subscribe, topic)) ?_ ?_ ?_ ?_
  · rw [step_lock hfault (by rw [hpc]; rfl) hphase, lock_of_symbol hsym hfree]
  · rw [step_subscribing hfault hpc, State.subscribing, deref_inside hsym, ← apply_ite some,
      inside_setPhase]
    simp only [Finset.card_eq_zero]
    rfl
  · rw [hsection]
    exact congrArg some (inside_setPhase _ _ _)
  · rw [hsection, State.subscribing, deref_inside hsym']
    exact congrArg some (inside_unlock hphase hfree _ _ _)

/-- Whether a session that leaves a symbol has to push. -/
theorem phase_of_leave (sym : Symbol ω) (s : ω) :
    (if (sym.leave s).2 ≠ 0 then
      if (sym.leave s).1.sessions.card = 0 then some Phase.pushing else some .pushed
        else some .pushed) = some (if sym.sessions = {s} then .pushing else .pushed) := by
  simp only [Symbol.leave, Finset.card_eq_zero, Finset.erase_eq_empty_iff]
  by_cases hone : sym.sessions = {s}
  · simp [hone]
  · by_cases hs : s ∈ sym.sessions
    · have hne : sym.sessions ≠ ∅ := Finset.ne_empty_of_mem hs
      simp [hs, hne, hone]
    · simp [hs, hone]

/-- The section of `websocket_unsubscribe_to_symbols`, in a row. -/
theorem run_parting {leaving : Bool} (hfault : x.sys.fault = false)
    (hpc : x.sys.pc s = .parting leaving topic rest) (hphase : x.phase s = none)
    (hfree : x.holder topic = none) (hsym : x.sys.shared.symbols topic = some (some sym)) :
    ∃ n, Runs.run (step parseJson) x (List.replicate n (.advance s)) = some { x with
      sys := (x.sys.setShared (x.sys.shared.settleSymbol topic (sym.leave s).1
        (x.sys.shared.sessionsOf topic = {s}) .unsubscribe)).goto s
        (.unsubscribe leaving rest) } := by
  have hsection : ∀ (st : SharedState ω) (p : Phase),
      step parseJson (x.inside s topic p (x.sys.setShared st)) (.advance s) =
        (x.inside s topic p (x.sys.setShared st)).unsubscribing s leaving topic rest p :=
    fun _ _ => step_unsubscribing hfault hpc
  set left := x.sys.shared.setSymbol topic (some (sym.leave s).1)
  -- here the symbol changes before the push, in `settleSymbol` after it
  have hsettle : x.sys.shared.settleSymbol topic (sym.leave s).1 (sym.sessions = {s})
      .unsubscribe = if sym.sessions = {s} then left.push (.unsubscribe, topic) else left := by
    unfold SharedState.settleSymbol
    split <;> rfl
  rw [SharedState.sessionsOf_of_symbol hsym, hsettle]
  refine run_locked topic (sym.sessions = {s}) left (left.push (.unsubscribe, topic)) ?_ ?_ ?_ ?_
  · rw [step_lock hfault (by rw [hpc]; rfl) hphase, lock_of_symbol hsym hfree]
  · rw [step_unsubscribing hfault hpc, State.unsubscribing, deref_inside hsym]
    show some (State.setPhase _ _ (if (sym.leave s).2 ≠ 0 then
      if (sym.leave s).1.sessions.card = 0 then some Phase.pushing else some .pushed
        else some .pushed)) = _
    rw [phase_of_leave]
    exact congrArg some (inside_setPhase _ _ _)
  · rw [hsection]
    exact congrArg some (inside_setPhase _ _ _)
  · rw [hsection, State.unsubscribing]
    exact congrArg some (inside_unlock hphase hfree _ _ _)

/-- A section nobody interrupts, taken in its smaller steps, does what its one
step in `Web.Sessions` does. -/
theorem run_section {sys : System ω} (hfault : x.sys.fault = false)
    (hpending : (x.sys.pc s).pending = some topic) (hphase : x.phase s = none)
    (hfree : x.holder topic = none) (h : x.sys.advance s = some sys) :
    ∃ n, Runs.run (step parseJson) x (List.replicate n (.advance s)) =
      some { x with sys := sys } := by
  have hmove : Web.Move parseJson x.sys (.advance s) sys := move_of_advance h
  cases hmove with
  | joinSymbol hpc hsym =>
      rw [hpc] at hpending
      cases hpending
      exact run_joining hfault hpc hphase hfree hsym
  | leaveSymbol hpc hsym =>
      rw [hpc] at hpending
      cases hpending
      exact run_parting hfault hpc hphase hfree hsym
  | nullSymbol hpending' hnull =>
      cases hpending.symm.trans hpending'
      refine ⟨1, ?_⟩
      have hlock : step parseJson x (.advance s) = _ := step_lock hfault hpending hphase
      rw [State.lock, deref_of_null hnull] at hlock
      exact Runs.run_cons_of_step hlock []
  | insertTopic hpc =>
      rw [hpc] at hpending
      cases hpending
  | eraseTopic hpc =>
      rw [hpc] at hpending
      cases hpending
  | eraseSession hpc =>
      rw [hpc] at hpending
      cases hpending

end Sections

/-! ## Two sessions inside `push` -/

section Pushes

variable [DecidableEq ω] {parseJson : JsonParser}

/-- A session that comes to a configured topic first gets as far as its push,
whatever the others are at. -/
theorem run_to_push {x : State ω} {s : ω} {t msg : Str} {sym : Symbol ω}
    (hfault : x.sys.fault = false) (habsent : x.sys.pc s = .absent) (hphase : x.phase s = none)
    (hfree : x.holder t = none) (hsym : x.sys.shared.symbols t = some (some sym))
    (hempty : sym.sessions = ∅) (hmsg : Lists parseJson msg 1 [t]) :
    ∃ y, Runs.run (step parseJson) x [.construct s, .accept s, .receive s msg, .advance s,
        .advance s, .advance s] = some y ∧ y.sys.fault = false ∧
      y.sys.shared.symbols = x.sys.shared.symbols ∧ (∀ s', s' ≠ s → y.sys.pc s' = x.sys.pc s') ∧
      y.phase = Function.update x.phase s (some .pushing) ∧
      y.holder = Function.update x.holder t (some s) := by
  set sys₁ := (x.sys.setShared (x.sys.shared.setTopics s .empty)).goto s .accepting
  set sys₂ := (sys₁.setShared (sys₁.shared.join s)).goto s .idle
  set sys₃ := sys₂.goto s (.subscribing t [])
  set sys₄ := (sys₃.setShared (sys₃.shared.insertTopic s t)).goto s (.joining t [])
  have hpc₁ : sys₁.pc s = .accepting := System.goto_pc_self ..
  have hpc₂ : sys₂.pc s = .idle := System.goto_pc_self ..
  have hpc₃ : sys₃.pc s = .subscribing t [] := System.goto_pc_self ..
  have hpc₄ : sys₄.pc s = .joining t [] := System.goto_pc_self ..
  have hfault₁ : sys₁.fault = false := hfault
  have hfault₂ : sys₂.fault = false := hfault
  have hfault₃ : sys₃.fault = false := hfault
  have hfault₄ : sys₄.fault = false := hfault
  have hsym₄ : sys₄.shared.symbols t = some (some sym) := hsym
  have hconstruct : Web.step parseJson x.sys (.construct s) = some sys₁ := by
    simp only [Web.step, hfault, habsent, Bool.false_eq_true, if_false, sys₁]
  have haccept : Web.step parseJson sys₁ (.accept s) = some sys₂ := by
    simp only [Web.step, hfault₁, hpc₁, Bool.false_eq_true, if_false, sys₂]
  have hreceive : Web.step parseJson sys₂ (.receive s msg) = some sys₃ := by
    simp only [Web.step, hfault₂, hpc₂, request_subscribe_iff.mpr hmsg, Bool.false_eq_true,
      if_false, sys₃]
    rfl
  have hinsert : Web.step parseJson sys₃ (.advance s) = some sys₄ := by
    rw [step_advance hfault₃, System.advance, hpc₃]
  set x₄ : State ω := { x with sys := sys₄ }
  have hpending₄ : (x₄.sys.pc s).pending = some t := congrArg Pc.pending hpc₄
  have hlock : step parseJson x₄ (.advance s) = some (x₄.inside s t .locked sys₄) :=
    (step_lock (x := x₄) hfault₄ hpending₄ hphase).trans (lock_of_symbol hsym₄ hfree)
  have htest : step parseJson (x₄.inside s t .locked sys₄) (.advance s) =
      some (x₄.inside s t .pushing sys₄) := by
    rw [step_subscribing hfault₄ hpc₄, State.subscribing, deref_inside hsym₄,
      if_pos (Finset.card_eq_zero.mpr hempty), inside_setPhase]
  refine ⟨x₄.inside s t .pushing sys₄, ?_, hfault, rfl, ?_, rfl, rfl⟩
  · rw [Runs.run_cons_of_step (step_outside (fun _ h => by cases h) hconstruct),
      Runs.run_cons_of_step (step_outside (fun _ h => by cases h) haccept),
      Runs.run_cons_of_step (step_outside (fun _ h => by cases h) hreceive),
      Runs.run_cons_of_step (step_outside (fun _ h => by cases h; rw [hpc₃]; rfl) hinsert),
      Runs.run_cons_of_step hlock, Runs.run_cons_of_step htest]
    rfl
  · intro s' hs
    show sys₄.pc s' = x.sys.pc s'
    simp only [sys₄, sys₃, sys₂, sys₁, System.goto, System.setShared, Function.update_of_ne hs]

/-- Two sessions that each come to a topic of their own. -/
theorem run_two_pushes {cfg : Str} {s s' : ω} {t t' msg msg' : Str} (hs : s ≠ s') (ht : t ≠ t')
    (hcfg : t ∈ split cfg) (hcfg' : t' ∈ split cfg) (hmsg : Lists parseJson msg 1 [t])
    (hmsg' : Lists parseJson msg' 1 [t']) :
    ∃ x : State ω, Runs.run (step parseJson) (.start cfg)
        ([.construct s, .accept s, .receive s msg, .advance s, .advance s, .advance s] ++
          [.construct s', .accept s', .receive s' msg', .advance s', .advance s', .advance s']) =
        some x ∧ x.phase s = some .pushing ∧ x.phase s' = some .pushing := by
  have hstart : ∀ t ∈ split cfg,
      (SharedState.init cfg : SharedState ω).symbols t = some (some ⟨t, ∅⟩) := by
    intro t ht
    rw [SharedState.init_symbols, if_pos ht]
  obtain ⟨y, hrun, hfault, hsymbols, hpc, hphase, hholder⟩ :=
    run_to_push (x := State.start cfg) (s := s) rfl rfl rfl rfl (hstart t hcfg) rfl hmsg
  obtain ⟨x, hrun', _, _, _, hphase', _⟩ :=
    run_to_push (x := y) (s := s') hfault (hpc s' hs.symm)
      (by rw [hphase, Function.update_of_ne hs.symm]; rfl)
      (by rw [hholder, Function.update_of_ne ht.symm]; rfl)
      ((congrFun hsymbols t').trans (hstart t' hcfg')) rfl hmsg'
  refine ⟨x, (Runs.run_append_of_run hrun _).trans hrun', ?_, ?_⟩
  · rw [hphase', Function.update_of_ne hs, hphase, Function.update_self]
  · rw [hphase', Function.update_self]

/-- **In every run of messages that name topics of `T` no two sessions are inside
`push` at the same time, exactly when `T` has at most one configured topic or
there is at most one session.** -/
theorem pushes_exclusive_iff (cfg : Str) (T : Str → Prop)
    (hjson : ∀ t, T t → t ∈ split cfg → ∃ msg, Lists parseJson msg 1 [t]) :
    (∀ (as : List (Action ω)) (x : State ω), (∀ a ∈ as, a.Names parseJson T) →
        Runs.run (step parseJson) (.start cfg) as = some x → Exclusive x) ↔
      (∀ t t', T t → T t' → t ∈ split cfg → t' ∈ split cfg → t = t') ∨ Subsingleton ω := by
  constructor
  · intro hexclusive
    by_contra hno
    obtain ⟨htopics, hsessions⟩ := not_or.mp hno
    push Not at htopics
    obtain ⟨t, t', hT, hT', hcfg, hcfg', ht⟩ := htopics
    obtain ⟨s, s', hs⟩ := not_subsingleton_iff_nontrivial.mp hsessions
    obtain ⟨msg, hmsg⟩ := hjson t hT hcfg
    obtain ⟨msg', hmsg'⟩ := hjson t' hT' hcfg'
    obtain ⟨x, hrun, hpush, hpush'⟩ := run_two_pushes hs ht hcfg hcfg' hmsg hmsg'
    refine hs (hexclusive _ x ?_ hrun s s' hpush hpush')
    have hnamed : ∀ {msg t}, Lists parseJson msg 1 [t] → T t → ∀ t₁ ∈ namedTopics parseJson msg,
        T t₁ := by
      intro msg t hmsg hT t₁ ht₁
      rw [namedTopics, request_subscribe_iff.mpr hmsg] at ht₁
      rwa [List.mem_singleton.mp ht₁]
    simp only [List.cons_append, List.nil_append, List.forall_mem_cons]
    simpa [Action.Names] using And.intro (hnamed hmsg hT) (hnamed hmsg' hT')
  · rintro (htopics | hsessions) as x hnames hrun s s' hs hs'
    · have hheld := held_run hnames hrun
      obtain ⟨t, hpending, _, hcfg⟩ := hheld.holding s _ hs
      obtain ⟨t', hpending', _, hcfg'⟩ := hheld.holding s' _ hs'
      have hT : T t := hheld.named.ahead s t (Pc.pending_ahead hpending)
      have hT' : T t' := hheld.named.ahead s' t' (Pc.pending_ahead hpending')
      have hsame : t = t' := htopics t t' hT hT' hcfg hcfg'
      exact hheld.eq_of_pending hs hs' (by rw [hpending, hpending', hsame])
    · exact Subsingleton.elim s s'

end Pushes

/-- With one topic that the messages name, whatever else is configured. -/
theorem one_topic_exclusive :
    (∀ (as : List (Action Nat)) (x : State Nat),
        (∀ a ∈ as, a.Names clientParser (· = "ETH-USD".toList)) →
        Runs.run (step clientParser) (.start twoTopics) as = some x → Exclusive x) ↔
      (∀ t t', t = "ETH-USD".toList → t' = "ETH-USD".toList → t ∈ split twoTopics →
        t' ∈ split twoTopics → t = t') ∨ Subsingleton Nat := by
  refine pushes_exclusive_iff twoTopics (· = "ETH-USD".toList) ?_
  rintro t rfl _
  exact ⟨subscribeEth, request_subscribe_iff.mp rfl⟩

def subscribeBtc : Str := "\x7b\"ty\":1,\"to\":\"BTC-USD\"\x7d".toList

/-- A parser that knows a subscription for each of two topics. -/
def subscribeParser : JsonParser := tableParser
  [(subscribeEth, .object [("ty".toList, .int64 1), ("to".toList, .string "ETH-USD".toList)]),
    (subscribeBtc, .object [("ty".toList, .int64 1), ("to".toList, .string "BTC-USD".toList)])]

/-- Two sessions subscribe, each the first to a topic of its own, and neither
waits for the other. -/
def twoPushes : List (Action Nat) :=
  [.construct 0, .accept 0, .construct 1, .accept 1, .receive 0 subscribeBtc,
    .receive 1 subscribeEth, .advance 0, .advance 1, .advance 0, .advance 1, .advance 0,
    .advance 1]

/-- Two sessions are inside `push`, at configured topics. -/
theorem two_inside_push :
    (∀ a ∈ twoPushes, a.Configured subscribeParser twoTopics) ∧
      ∃ x : State Nat,
        Runs.run (step subscribeParser) (.start twoTopics) twoPushes = some x ∧ ¬ Exclusive x := by
  constructor
  · have hbtc : ∀ t ∈ namedTopics subscribeParser subscribeBtc, t ∈ split twoTopics := by decide
    have heth : ∀ t ∈ namedTopics subscribeParser subscribeEth, t ∈ split twoTopics := by decide
    simpa [twoPushes, Action.Configured] using And.intro hbtc heth
  · refine ⟨_, rfl, ?_⟩
    intro hexclusive
    cases hexclusive 0 1 rfl rfl

end SravzBackend.Web.Producers
