/-
# `Web.Wire` — from the publisher's queue to the clients' sockets

What the publisher sends to a session it does not write: `send` posts a call of
`on_send` to the session's strand, with a shared pointer to the session, and the
strand runs the calls in the order they were posted, between the completions of
the session's writes.  `Wire` puts the publisher's loop, the strands and the
sessions' write queues together; a session is destroyed only when no posted
call and no outstanding write keeps it.

`wire_delivers`: in every interleaving, what the turns of the publisher sent to
a session is what has been written to its socket, then its queue, then what is
still posted.  A session that is still there has missed no turn that came to
it; one that is gone had everything written first, unless a write of its own
had failed.  `wire_drains`: a session with no failed write can always get there
by its own handlers alone.
-/
import SravzBackend.Web.Publisher
import SravzBackend.Web.WriteQueue

namespace SravzBackend.Web

variable {ω : Type}

/-! ## Who owns a session -/

theorem Pc.owned_subscribe (topics : List Str) : (Pc.subscribe topics).owned = true := by
  cases topics <;> rfl

theorem Pc.owned_unsubscribe (leaving : Bool) (topics : List Str) :
    (Pc.unsubscribe leaving topics).owned = !leaving := by
  cases topics <;> cases leaving <;> rfl

theorem Pc.owned_ofRequest (r : Except JsonError Request) : (Pc.ofRequest r).owned = true := by
  cases r with
  | error e => rfl
  | ok req =>
      cases req with
      | subscribe topics => exact Pc.owned_subscribe topics
      | unsubscribe topics => exact Pc.owned_unsubscribe false topics
      | unsupported => rfl

@[simp]
theorem Publishing.send_generation (p : Publishing ω) (turn : Turn ω) (rest : List (WeakPtr ω)) :
    (p.send turn rest).generation = p.generation := by
  cases rest <;> rfl

@[simp]
theorem Publishing.send_owned (p : Publishing ω) (turn : Turn ω) (rest : List (WeakPtr ω)) :
    (p.send turn rest).owned = p.owned := by
  funext wp
  rw [Publishing.owned, Publishing.send_generation, Publishing.send_system]
  rfl

theorem Publishing.owned_of_generation_ne {p : Publishing ω} {wp : WeakPtr ω}
    (h : p.generation wp.address ≠ wp.generation) : p.owned wp = false := by
  rw [owned, beq_false_of_ne h, Bool.false_and]

theorem Publishing.owned_of_pc {p : Publishing ω} {wp : WeakPtr ω}
    (h : (p.system.pc wp.address).owned = false) : p.owned wp = false := by
  rw [owned, h, Bool.and_false]

section Ownership

variable [DecidableEq ω] {parseJson : JsonParser}

/-- A session that goes on as owned as it was. -/
theorem System.owned_goto {sys : System ω} {s : ω} {pc : Pc}
    (h : pc.owned = (sys.pc s).owned) (st : SharedState ω) (s' : ω) :
    (((sys.setShared st).goto s pc).pc s').owned = (sys.pc s').owned := by
  by_cases hs : s' = s
  · subst hs
    rw [System.goto_pc_self, h]
  · rw [System.goto_pc_of_ne _ hs]
    rfl

/-- Only the construction and the destruction of a session change whether it
is owned. -/
theorem owned_of_move {sys sys' : System ω} {a : Action ω} (h : Move parseJson sys a sys')
    (s : ω) :
    (sys'.pc s).owned = (sys.pc s).owned ∨ (a = .construct s ∧ (sys.pc s).owned = false) ∨
      a = .destroy s := by
  cases h with
  | @construct s₀ hpc =>
      by_cases hs : s = s₀
      · subst hs
        exact .inr (.inl ⟨rfl, by rw [hpc]; rfl⟩)
      · exact .inl (by rw [System.goto_pc_of_ne _ hs]; rfl)
  | @destroy s₀ hpc =>
      by_cases hs : s = s₀
      · subst hs
        exact .inr (.inr rfl)
      · exact .inl (by rw [System.goto_pc_of_ne _ hs])
  | accept hpc => exact .inl (System.owned_goto (by rw [hpc]; rfl) _ s)
  | receive msg hpc =>
      exact .inl (System.owned_goto (by rw [hpc, Pc.owned_ofRequest]; rfl) sys.shared s)
  | insertTopic hpc => exact .inl (System.owned_goto (by rw [hpc]; rfl) _ s)
  | joinSymbol hpc hsym =>
      exact .inl (System.owned_goto (by rw [hpc, Pc.owned_subscribe]; rfl) _ s)
  | eraseTopic hpc => exact .inl (System.owned_goto (by rw [hpc]; rfl) _ s)
  | leaveSymbol hpc hsym =>
      exact .inl (System.owned_goto (by rw [hpc, Pc.owned_unsubscribe]; rfl) _ s)
  | nullSymbol hpending hnull => exact .inl rfl
  | eraseSession hpc => exact .inl (System.owned_goto (by rw [hpc]; rfl) _ s)
  | pop hq => exact .inl rfl
  | popNothing hq => exact .inl rfl

theorem Publishing.generationAfter_construct (p : Publishing ω) (s : ω) :
    p.generationAfter (.construct s) s = p.generation s + 1 := Function.update_self ..

theorem Publishing.generationAfter_of_ne (p : Publishing ω) {a : Action ω} {s : ω}
    (h : a ≠ .construct s) : p.generationAfter a s = p.generation s := by
  cases a with
  | construct s' => exact Function.update_of_ne (fun hs => h (by rw [hs])) ..
  | _ => rfl

/-- Who owned a session owns it, unless it was constructed or destroyed. -/
theorem owned_of_publishStep {p p' : Publishing ω} {a : PublishAction ω}
    (h : publishStep parseJson p a = some p') (wp : WeakPtr ω) :
    p'.owned wp = p.owned wp ∨
      (∃ s, a = .session (.construct s) ∧ wp = ⟨s, p.generation s + 1⟩) ∨
      (a = .session (.destroy wp.address) ∧ wp = p.weakFromThis wp.address) := by
  cases publishMove_of_step h with
  | @session a sys hsys =>
      obtain ⟨s, n⟩ := wp
      have hmove := (move_of_step hsys).2
      by_cases ha : a = .construct s
      · subst ha
        by_cases hn : n = p.generation s + 1
        · exact .inr (.inl ⟨s, rfl, by rw [hn]⟩)
        · refine .inl ?_
          rw [Publishing.owned_of_generation_ne, Publishing.owned_of_pc]
          · cases hmove with
            | construct hpc => rw [hpc]; rfl
          · show p.generationAfter (.construct s) s ≠ n
            rw [Publishing.generationAfter_construct]
            exact fun h => hn h.symm
      · have hgen : p.generationAfter a s = p.generation s := p.generationAfter_of_ne ha
        rcases owned_of_move hmove s with hsame | ⟨hcon, _⟩ | rfl
        · refine .inl ?_
          simp only [Publishing.owned, hgen, hsame]
        · exact absurd hcon ha
        · by_cases hn : n = p.generation s
          · exact .inr (.inr ⟨rfl, by rw [hn]; rfl⟩)
          · refine .inl ?_
            rw [Publishing.owned_of_generation_ne, Publishing.owned_of_generation_ne]
            · exact fun h => hn h.symm
            · exact fun h => hn (hgen.symm.trans h).symm
  | snapshot hpc hsym hnodup horder => exact .inl (by rw [Publishing.send_owned])
  | lock hpc => exact .inl (by rw [Publishing.lock, Publishing.send_owned]; rfl)
  | _ => exact .inl rfl

/-- The count of the sessions constructed at an address never goes down. -/
theorem generation_of_publishStep {p p' : Publishing ω} {a : PublishAction ω}
    (h : publishStep parseJson p a = some p') (s : ω) : p.generation s ≤ p'.generation s := by
  cases publishMove_of_step h with
  | @session a sys hsys =>
      show p.generation s ≤ p.generationAfter a s
      by_cases ha : a = .construct s
      · subst ha
        rw [Publishing.generationAfter_construct]
        exact Nat.le_succ _
      · rw [p.generationAfter_of_ne ha]
  | snapshot hpc hsym hnodup horder => rw [Publishing.send_generation]
  | lock hpc => rw [Publishing.lock, Publishing.send_generation]
  | _ => exact Nat.le_refl _

/-- The session has lived, and is no longer owned. -/
def Publishing.Gone (p : Publishing ω) (wp : WeakPtr ω) : Prop :=
  wp.generation ≤ p.generation wp.address ∧ p.owned wp = false

/-- A session that is gone does not come back. -/
theorem Publishing.Gone.step {p p' : Publishing ω} {a : PublishAction ω} {wp : WeakPtr ω}
    (h : p.Gone wp) (hstep : publishStep parseJson p a = some p') : p'.Gone wp := by
  refine ⟨h.1.trans (generation_of_publishStep hstep wp.address), ?_⟩
  rcases owned_of_publishStep hstep wp with hsame | ⟨s, _, rfl⟩ | ⟨rfl, hwp⟩
  · rw [hsame, h.2]
  · exact absurd h.1 (Nat.not_succ_le_self _)
  · cases publishMove_of_step hstep with
    | session hsys =>
        cases (move_of_step hsys).2 with
        | destroy hpc =>
            have howned : (p.system.pc wp.address).owned = true := by
              rcases hpc with hpc | hpc <;> rw [hpc] <;> rfl
            have hheld : p.owned wp = true := by
              rw [hwp]
              simp [Publishing.owned, Publishing.weakFromThis, howned]
            rw [h.2] at hheld
            cases hheld

/-- What the turns know of the sessions: those of a snapshot had been
constructed, and those that were not found are gone. -/
structure Kept (p : Publishing ω) : Prop where
  known : ∀ t ∈ p.turns, ∀ wp ∈ t.members, wp.generation ≤ p.generation wp.address
  missed : ∀ t ∈ p.turns, ∀ wp, (wp, false) ∈ t.locks → p.Gone wp

theorem Kept.same {p p' : Publishing ω} {a : PublishAction ω} (h : Kept p)
    (hstep : publishStep parseJson p a = some p') (hturns : p'.turns = p.turns) : Kept p' := by
  refine ⟨?_, ?_⟩
  · intro t ht wp hwp
    rw [hturns] at ht
    exact (h.known t ht wp hwp).trans (generation_of_publishStep hstep wp.address)
  · intro t ht wp hlock
    rw [hturns] at ht
    exact (h.missed t ht wp hlock).step hstep

theorem Kept.step {p p' : Publishing ω} {a : PublishAction ω} (hdelivers : Delivers p)
    (h : Kept p) (hstep : publishStep parseJson p a = some p') : Kept p' := by
  have hmove := publishMove_of_step hstep
  cases hmove with
  | session hsys => exact h.same hstep rfl
  | onMessage channel msg => exact h.same hstep rfl
  | pop hpc hq => exact h.same hstep (Publishing.turns_of_waiting hpc).symm
  | popNothing hq => exact h
  | nullSymbol hpc hnull => exact h.same hstep rfl
  | @snapshot topic message sym order hpc hsym hnodup horder =>
      have hturns : p.turns = p.finished := Publishing.turns_of_popped hpc
      refine ⟨?_, ?_⟩
      · intro t ht wp hwp
        rw [Publishing.send_turns] at ht
        rw [Publishing.send_generation]
        rcases List.mem_append.mp ht with ht | ht
        · exact h.known t (hturns ▸ ht) wp hwp
        · cases List.mem_singleton.mp ht
          obtain ⟨s, _, rfl⟩ := Finset.mem_image.mp hwp
          exact Nat.le_refl _
      · intro t ht wp hlock
        rw [Publishing.send_turns] at ht
        rcases List.mem_append.mp ht with ht | ht
        · exact (h.missed t (hturns ▸ ht) wp hlock).step hstep
        · cases List.mem_singleton.mp ht
          cases hlock
  | @lock turn wp₀ rest hpc =>
      have hturns : p.turns = p.finished ++ [turn] := Publishing.turns_of_sending hpc
      have hturn : turn ∈ p.turns := hturns ▸ List.mem_append_right _ (List.mem_singleton_self _)
      have hcovers := hdelivers.current turn wp₀ rest hpc
      have hgen : (p.lock turn wp₀ rest).generation = p.generation := by
        rw [Publishing.lock, Publishing.send_generation]
      refine ⟨?_, ?_⟩
      · intro t ht wp hwp
        rw [Publishing.lock, Publishing.send_turns] at ht
        rw [hgen]
        rcases List.mem_append.mp ht with ht | ht
        · exact h.known t (hturns ▸ List.mem_append_left _ ht) wp hwp
        · cases List.mem_singleton.mp ht
          exact h.known turn hturn wp hwp
      · intro t ht wp hlock
        rw [Publishing.lock, Publishing.send_turns] at ht
        rcases List.mem_append.mp ht with ht | ht
        · exact (h.missed t (hturns ▸ List.mem_append_left _ ht) wp hlock).step hstep
        · cases List.mem_singleton.mp ht
          refine Publishing.Gone.step (p := p) ?_ hstep
          rcases List.mem_append.mp hlock with hlock | hlock
          · exact h.missed turn hturn wp hlock
          · obtain ⟨rfl, hnot⟩ := Prod.mk.inj (List.mem_singleton.mp hlock)
            have hmem : wp ∈ turn.members :=
              (hcovers.mem wp).mp (List.mem_append_right _ List.mem_cons_self)
            exact ⟨h.known turn hturn wp hmem, hnot.symm⟩

omit [DecidableEq ω] in
theorem kept_start (cfg : Str) : Kept (.start cfg : Publishing ω) := ⟨nofun, nofun⟩

omit [DecidableEq ω] in
/-- A session that is owned has been found by every turn that came to it. -/
theorem Kept.found {p : Publishing ω} (h : Kept p) {wp : WeakPtr ω} (howned : p.owned wp = true)
    {t : Turn ω} (ht : t ∈ p.turns) : (wp, true) ∈ t.locks ↔ wp ∈ t.locked := by
  constructor
  · exact fun hlock => List.mem_map_of_mem hlock
  · intro hlocked
    obtain ⟨⟨wp', b⟩, hlock, rfl⟩ := List.mem_map.mp hlocked
    cases b with
    | true => exact hlock
    | false =>
        rw [(h.missed t ht _ hlock).2] at howned
        cases howned

end Ownership

/-! ## The strands and the sockets -/

/-- The session's strand is in the handler of a message it has read. -/
def Pc.inOnRead : Pc → Bool
  | .subscribing _ _ => true
  | .joining _ _ => true
  | .unsubscribing leaving _ _ => !leaving
  | .parting leaving _ _ => !leaving
  | _ => false

/-- `posted` are the messages of the calls of `on_send` that a session's
strand has still to run; `conn` is the session's write queue. -/
structure Wire (ω : Type) where
  publishing : Publishing ω
  posted : WeakPtr ω → List Str
  conn : WeakPtr ω → WriteQueue.Session Str

inductive WireAction (ω : Type) where
  | publish (a : PublishAction ω)
  | onSend (wp : WeakPtr ω)
  | onWrite (wp : WeakPtr ω) (i : Nat) (ec : Bool)

namespace Wire

def start (cfg : Str) : Wire ω := ⟨.start cfg, fun _ => [], fun _ => .start⟩

/-- Some handler has a `shared_from_this` of the session. -/
def held (w : Wire ω) (wp : WeakPtr ω) : Bool :=
  !(w.posted wp).isEmpty || !(w.conn wp).outstanding.isEmpty

/-- The destructor of a session runs only when no handler has it. -/
def allows (w : Wire ω) : PublishAction ω → Bool
  | .session (.destroy s) => !w.held (w.publishing.weakFromThis s)
  | _ => true

/-- A strand runs one handler at a time. -/
def runs (w : Wire ω) (wp : WeakPtr ω) : Bool :=
  !w.publishing.system.fault && !(w.publishing.system.pc wp.address).inOnRead

variable [DecidableEq ω]

/-- `websocket_session::send`, where the publisher's step is one. -/
def post (w : Wire ω) : PublishAction ω → WeakPtr ω → List Str
  | .lock =>
      match w.publishing.pc with
      | .sending turn wp _ =>
          if w.publishing.owned wp then
            Function.update w.posted wp (w.posted wp ++ [turn.message])
          else w.posted
      | _ => w.posted
  | _ => w.posted

end Wire

section Steps

variable [DecidableEq ω] (parseJson : JsonParser)

def wireStep (w : Wire ω) : WireAction ω → Option (Wire ω)
  | .publish a =>
      if w.allows a then
        match publishStep parseJson w.publishing a with
        | some p => some { w with publishing := p, posted := w.post a }
        | none => none
      else none
  | .onSend wp =>
      if w.runs wp then
        match w.posted wp with
        | ss :: rest =>
            some { w with
              posted := Function.update w.posted wp rest
              conn := Function.update w.conn wp ((w.conn wp).onSend ss) }
        | [] => none
      else none
  | .onWrite wp i ec =>
      if w.runs wp then
        match WriteQueue.step (w.conn wp) (.onWrite i ec) with
        | some conn => some { w with conn := Function.update w.conn wp conn }
        | none => none
      else none

/-- What a step can do. -/
inductive WireMove (w : Wire ω) : WireAction ω → Wire ω → Prop where
  | publish {a p} (hallows : w.allows a = true)
      (h : publishStep parseJson w.publishing a = some p) :
      WireMove w (.publish a) { w with publishing := p, posted := w.post a }
  | onSend {wp ss rest} (hruns : w.runs wp = true) (h : w.posted wp = ss :: rest) :
      WireMove w (.onSend wp)
        { w with
          posted := Function.update w.posted wp rest
          conn := Function.update w.conn wp ((w.conn wp).onSend ss) }
  | onWrite {wp i ec conn} (hruns : w.runs wp = true)
      (h : WriteQueue.step (w.conn wp) (.onWrite i ec) = some conn) :
      WireMove w (.onWrite wp i ec) { w with conn := Function.update w.conn wp conn }

end Steps

section Moves

variable [DecidableEq ω] {parseJson : JsonParser}

theorem wireMove_of_step {w w' : Wire ω} {a : WireAction ω}
    (h : wireStep parseJson w a = some w') : WireMove parseJson w a w' := by
  cases a with
  | publish a =>
      rw [wireStep, Option.ite_none_right_eq_some] at h
      obtain ⟨hallows, h⟩ := h
      cases hstep : publishStep parseJson w.publishing a with
      | none => simp [hstep] at h
      | some p =>
          simp only [hstep, Option.some.injEq] at h
          subst h
          exact .publish hallows hstep
  | onSend wp =>
      rw [wireStep, Option.ite_none_right_eq_some] at h
      obtain ⟨hruns, h⟩ := h
      cases hposted : w.posted wp with
      | nil => simp [hposted] at h
      | cons ss rest =>
          simp only [hposted, Option.some.injEq] at h
          subst h
          exact .onSend hruns hposted
  | onWrite wp i ec =>
      rw [wireStep, Option.ite_none_right_eq_some] at h
      obtain ⟨hruns, h⟩ := h
      cases hstep : WriteQueue.step (w.conn wp) (.onWrite i ec) with
      | none => simp [hstep] at h
      | some conn =>
          simp only [hstep, Option.some.injEq] at h
          subst h
          exact .onWrite hruns hstep

end Moves

/-! ## What every interleaving keeps -/

section Carrying

variable [DecidableEq ω] {parseJson : JsonParser}

/-- A write to the session has failed. -/
def FailedWrite (as : List (WireAction ω)) (wp : WeakPtr ω) : Prop :=
  ∃ i, .onWrite wp i true ∈ as

/-- What has been sent to a session has been passed to its `on_send`, in that
order, or is still posted. -/
structure Carried (as : List (WireAction ω)) (w : Wire ω) (wp : WeakPtr ω)
    (acts : List (WriteQueue.Action Str)) : Prop where
  run : Runs.run WriteQueue.step .start acts = some (w.conn wp)
  sent : w.publishing.sent wp = WriteQueue.sent acts ++ w.posted wp
  failed : WriteQueue.Failed acts ↔ FailedWrite as wp

structure Carries (as : List (WireAction ω)) (w : Wire ω) : Prop where
  delivers : Delivers w.publishing
  kept : Kept w.publishing
  held : ∀ wp, w.held wp = true → w.publishing.owned wp = true
  carried : ∀ wp, ∃ acts, Carried as w wp acts

omit [DecidableEq ω] in
theorem Wire.held_eq_true {w : Wire ω} {wp : WeakPtr ω} :
    w.held wp = true ↔ w.posted wp ≠ [] ∨ (w.conn wp).outstanding ≠ [] := by
  simp [held]

omit [DecidableEq ω] in
theorem Wire.held_eq_false {w : Wire ω} {wp : WeakPtr ω} :
    w.held wp = false ↔ w.posted wp = [] ∧ (w.conn wp).outstanding = [] := by
  simp [held]

/-- A step of the publisher posts what it sends, to sessions that are owned. -/
theorem Wire.post_eq {w : Wire ω} {p : Publishing ω} {a : PublishAction ω}
    (h : publishStep parseJson w.publishing a = some p) (wp : WeakPtr ω) :
    ∃ new, p.sent wp = w.publishing.sent wp ++ new ∧ w.post a wp = w.posted wp ++ new ∧
      (new ≠ [] → w.publishing.owned wp = true ∧ p.owned wp = true) := by
  have hnothing : ∃ new, w.publishing.sent wp = w.publishing.sent wp ++ new ∧
      w.posted wp = w.posted wp ++ new ∧
      (new ≠ [] → w.publishing.owned wp = true ∧ p.owned wp = true) :=
    ⟨[], (List.append_nil _).symm, (List.append_nil _).symm, fun h => absurd rfl h⟩
  cases publishMove_of_step h with
  | @lock turn wp₀ rest hpc =>
      have howned : (w.publishing.lock turn wp₀ rest).owned = w.publishing.owned := by
        rw [Publishing.lock, Publishing.send_owned]
        rfl
      rw [howned] at hnothing ⊢
      rw [Publishing.lock, Publishing.send_sent, post]
      simp only [hpc]
      split
      · next hfound =>
          by_cases heq : wp = wp₀
          · subst heq
            exact ⟨[turn.message], by rw [Function.update_self], by rw [Function.update_self],
              fun _ => ⟨hfound, hfound⟩⟩
          · rw [Function.update_of_ne heq, Function.update_of_ne heq]
            exact hnothing
      · exact hnothing
  | snapshot hpc hsym hnodup horder =>
      rw [Publishing.send_sent]
      exact hnothing
  | _ => exact hnothing

theorem Carries.held_publish {as : List (WireAction ω)} {w : Wire ω} (h : Carries as w)
    {a : PublishAction ω} {p : Publishing ω} (hallows : w.allows a = true)
    (hstep : publishStep parseJson w.publishing a = some p) (wp : WeakPtr ω)
    (hheld : Wire.held { w with publishing := p, posted := w.post a } wp = true) :
    p.owned wp = true := by
  obtain ⟨new, _, hpost, howned⟩ := Wire.post_eq hstep wp
  by_cases hnew : new = []
  · rw [hnew, List.append_nil] at hpost
    have hbefore : w.held wp = true := by
      rw [Wire.held] at hheld
      rwa [show Wire.posted _ wp = w.posted wp from hpost] at hheld
    have hwas := h.held wp hbefore
    rcases owned_of_publishStep hstep wp with hsame | ⟨s, _, rfl⟩ | ⟨rfl, hwp⟩
    · rw [hsame, hwas]
    · rw [Publishing.owned_of_generation_ne (Nat.ne_of_lt (Nat.lt_succ_self _))] at hwas
      cases hwas
    · rw [Wire.allows, ← hwp, hbefore] at hallows
      cases hallows
  · exact (howned hnew).2

omit [DecidableEq ω] in
/-- A step that is none of the session's own leaves its record. -/
theorem Carried.same {as : List (WireAction ω)} {w w' : Wire ω} {wp : WeakPtr ω}
    {acts : List (WriteQueue.Action Str)} (h : Carried as w wp acts) {a : WireAction ω}
    (new : List Str) (hconn : w'.conn wp = w.conn wp)
    (hsent : w'.publishing.sent wp = w.publishing.sent wp ++ new)
    (hposted : w'.posted wp = w.posted wp ++ new) (ha : ∀ i, a ≠ .onWrite wp i true) :
    Carried (as ++ [a]) w' wp acts := by
  refine ⟨?_, ?_, ?_⟩
  · rw [hconn]
    exact h.run
  · rw [hsent, hposted, h.sent, List.append_assoc]
  · rw [h.failed, FailedWrite, FailedWrite]
    refine exists_congr fun i => ?_
    rw [List.mem_append, List.mem_singleton]
    exact ⟨.inl, fun hmem => hmem.resolve_right (fun heq => ha i heq.symm)⟩

/-- The strand passes the first posted message to `on_send`. -/
theorem Carried.onSend {as : List (WireAction ω)} {w : Wire ω} {wp : WeakPtr ω}
    {acts : List (WriteQueue.Action Str)} (h : Carried as w wp acts) {ss : Str} {rest : List Str}
    (hposted : w.posted wp = ss :: rest) :
    Carried (as ++ [.onSend wp])
      { w with
        posted := Function.update w.posted wp rest
        conn := Function.update w.conn wp ((w.conn wp).onSend ss) } wp (acts ++ [.onSend ss]) := by
  have hconn : Function.update w.conn wp ((w.conn wp).onSend ss) wp = (w.conn wp).onSend ss :=
    Function.update_self ..
  refine ⟨?_, ?_, ?_⟩
  · rw [Runs.run_concat_eq_some]
    exact ⟨w.conn wp, h.run, congrArg some hconn.symm⟩
  · show w.publishing.sent wp = _ ++ Function.update w.posted wp rest wp
    rw [h.sent, hposted, WriteQueue.sent_concat_onSend, Function.update_self, List.append_assoc]
    rfl
  · rw [WriteQueue.failed_concat_iff, h.failed, FailedWrite, FailedWrite]
    simp

/-- A write of the session completes. -/
theorem Carried.onWrite {as : List (WireAction ω)} {w : Wire ω} {wp : WeakPtr ω}
    {acts : List (WriteQueue.Action Str)} (h : Carried as w wp acts) {i : Nat} {ec : Bool}
    {conn : WriteQueue.Session Str}
    (hstep : WriteQueue.step (w.conn wp) (.onWrite i ec) = some conn) :
    Carried (as ++ [.onWrite wp i ec]) { w with conn := Function.update w.conn wp conn } wp
      (acts ++ [.onWrite i ec]) := by
  have hconn : Function.update w.conn wp conn wp = conn := Function.update_self ..
  refine ⟨?_, ?_, ?_⟩
  · rw [Runs.run_concat_eq_some]
    exact ⟨w.conn wp, h.run, hstep.trans (congrArg some hconn.symm)⟩
  · rw [WriteQueue.sent_concat_onWrite]
    exact h.sent
  · rw [WriteQueue.failed_concat_iff, h.failed, FailedWrite, FailedWrite, ← exists_or]
    refine exists_congr fun j => ?_
    rw [List.mem_append, List.mem_singleton, WireAction.onWrite.injEq,
      WriteQueue.Action.onWrite.injEq]
    simp [eq_comm]

omit [DecidableEq ω] in
/-- Only an outstanding write completes. -/
theorem Wire.held_of_onWrite {w : Wire ω} {wp : WeakPtr ω} {i : Nat} {ec : Bool}
    {conn : WriteQueue.Session Str}
    (h : WriteQueue.step (w.conn wp) (.onWrite i ec) = some conn) : w.held wp = true := by
  rw [held_eq_true]
  refine .inr fun hnone => ?_
  rw [WriteQueue.step, hnone, List.getElem?_nil] at h
  cases h

/-- The other sessions are held by what held them. -/
theorem Carries.held_update {as : List (WireAction ω)} {w w' : Wire ω} {wp₀ : WeakPtr ω}
    (h : Carries as w) (hpublishing : w'.publishing = w.publishing)
    (hothers : ∀ wp, wp ≠ wp₀ → w'.posted wp = w.posted wp ∧ w'.conn wp = w.conn wp)
    (hheld : w.held wp₀ = true) (wp : WeakPtr ω) (hwp : w'.held wp = true) :
    w'.publishing.owned wp = true := by
  rw [hpublishing]
  by_cases heq : wp = wp₀
  · rw [heq]
    exact h.held wp₀ hheld
  · obtain ⟨hposted, hconn⟩ := hothers wp heq
    rw [Wire.held, hposted, hconn] at hwp
    exact h.held wp hwp

theorem Carries.step {as : List (WireAction ω)} {w w' : Wire ω} {a : WireAction ω}
    (h : Carries as w) (hstep : wireStep parseJson w a = some w') : Carries (as ++ [a]) w' := by
  cases wireMove_of_step hstep with
  | @publish a p hallows hp =>
      refine ⟨h.delivers.step hp, h.kept.step h.delivers hp, h.held_publish hallows hp, ?_⟩
      intro wp
      obtain ⟨acts, hacts⟩ := h.carried wp
      obtain ⟨new, hsent, hpost, _⟩ := Wire.post_eq hp wp
      exact ⟨acts, hacts.same new rfl hsent hpost nofun⟩
  | @onSend wp₀ ss rest hruns hposted =>
      have hheld : w.held wp₀ = true := by
        rw [Wire.held_eq_true, hposted]
        exact .inl (List.cons_ne_nil ss rest)
      refine ⟨h.delivers, h.kept, h.held_update rfl ?_ hheld, ?_⟩
      · intro wp hne
        exact ⟨Function.update_of_ne hne .., Function.update_of_ne hne ..⟩
      · intro wp
        obtain ⟨acts, hacts⟩ := h.carried wp
        by_cases heq : wp = wp₀
        · subst heq
          exact ⟨_, hacts.onSend hposted⟩
        · refine ⟨acts, hacts.same [] (Function.update_of_ne heq ..)
            (List.append_nil _).symm ?_ nofun⟩
          rw [List.append_nil]
          exact Function.update_of_ne heq ..
  | @onWrite wp₀ i ec conn hruns hconn =>
      refine ⟨h.delivers, h.kept, h.held_update rfl ?_ (Wire.held_of_onWrite hconn), ?_⟩
      · intro wp hne
        exact ⟨rfl, Function.update_of_ne hne ..⟩
      · intro wp
        obtain ⟨acts, hacts⟩ := h.carried wp
        by_cases heq : wp = wp₀
        · subst heq
          exact ⟨_, hacts.onWrite hconn⟩
        · refine ⟨acts, hacts.same [] (Function.update_of_ne heq ..)
            (List.append_nil _).symm (List.append_nil _).symm ?_⟩
          rintro j ⟨⟩
          exact heq rfl

theorem carries_start (cfg : Str) : Carries [] (.start cfg : Wire ω) := by
  refine ⟨delivers_start cfg, kept_start cfg, nofun, fun _ => ⟨[], rfl, rfl, ?_⟩⟩
  exact ⟨fun ⟨_, hi⟩ => absurd hi List.not_mem_nil, fun ⟨_, hi⟩ => absurd hi List.not_mem_nil⟩

theorem carries_run {cfg : Str} {as : List (WireAction ω)} {w : Wire ω}
    (hrun : Runs.run (wireStep parseJson) (.start cfg) as = some w) : Carries as w :=
  Runs.run_inv_history (carries_start cfg) (fun _ h hstep => Carries.step h hstep) hrun

/-! ## What has reached the socket -/

omit [DecidableEq ω] in
theorem Carried.sent_eq {as : List (WireAction ω)} {w : Wire ω} {wp : WeakPtr ω}
    {acts : List (WriteQueue.Action Str)} (h : Carried as w wp acts) :
    w.publishing.sent wp = (w.conn wp).written ++ (w.conn wp).queue ++ w.posted wp := by
  rw [h.sent, (WriteQueue.inv_run h.run).sent_eq]

omit [DecidableEq ω] in
/-- Until a write fails, the front of the queue is being written. -/
theorem Carried.writing {as : List (WireAction ω)} {w : Wire ω} {wp : WeakPtr ω}
    {acts : List (WriteQueue.Action Str)} (h : Carried as w wp acts) (hno : ¬ FailedWrite as wp) :
    WriteQueue.Writing (w.conn wp) := by
  rcases (WriteQueue.inv_run h.run).phase with ⟨_, hwriting⟩ | ⟨hfailed, _⟩
  · exact hwriting
  · exact absurd (h.failed.mp hfailed) hno

omit [DecidableEq ω] in
/-- After a failure nothing is outstanding. -/
theorem Carried.outstanding_le {as : List (WireAction ω)} {w : Wire ω} {wp : WeakPtr ω}
    {acts : List (WriteQueue.Action Str)} (h : Carried as w wp acts) :
    (w.conn wp).outstanding.length ≤ 1 := by
  rcases (WriteQueue.inv_run h.run).phase with ⟨_, hwriting⟩ | ⟨_, hnone, _⟩
  · rw [hwriting]
    exact Option.length_toList_le
  · rw [hnone]
    exact Nat.zero_le 1

/-- A session that is gone, and had no failed write, has nothing left. -/
theorem Carries.gone {as : List (WireAction ω)} {w : Wire ω} (h : Carries as w) {wp : WeakPtr ω}
    (hgone : w.publishing.owned wp = false) (hno : ¬ FailedWrite as wp) :
    (w.conn wp).written = w.publishing.sent wp := by
  obtain ⟨acts, hacts⟩ := h.carried wp
  have hheld : w.held wp = false := by
    cases hheld : w.held wp with
    | false => rfl
    | true =>
        rw [h.held wp hheld] at hgone
        cases hgone
  obtain ⟨hposted, hnone⟩ := Wire.held_eq_false.mp hheld
  have hqueue : (w.conn wp).queue = [] := by
    have hwriting := hacts.writing hno
    rw [WriteQueue.Writing, hnone] at hwriting
    cases hq : (w.conn wp).queue with
    | nil => rfl
    | cons ss rest =>
        rw [hq] at hwriting
        cases hwriting
  rw [hacts.sent_eq, hqueue, hposted, List.append_nil, List.append_nil]

/-- The messages of the turns that came to a session. -/
def messagesOfLocked (ts : List (Turn ω)) (wp : WeakPtr ω) : List Str :=
  (ts.filter (fun t => wp ∈ t.locked)).map Turn.message

/-- **In every interleaving of the sessions' procedures, the publisher, the
strands and the completions of writes: no handler runs for a session that is
not owned; what the turns sent to a session is what has been written to its
socket, what is in its queue and what is posted, in this order, with at most
one write outstanding; a session that is still owned was sent the message of
every turn that came to it, and a turn that is over came to all of its
snapshot; and to one that is not owned everything sent was written, unless one
of its writes failed.** -/
theorem wire_delivers {cfg : Str} {as : List (WireAction ω)} {w : Wire ω}
    (hrun : Runs.run (wireStep parseJson) (.start cfg) as = some w) (wp : WeakPtr ω) :
    (w.posted wp ≠ [] ∨ (w.conn wp).outstanding ≠ [] → w.publishing.owned wp = true) ∧
      messagesFor w.publishing.turns wp =
        (w.conn wp).written ++ (w.conn wp).queue ++ w.posted wp ∧
      (w.conn wp).outstanding.length ≤ 1 ∧
      (w.publishing.owned wp = true →
        messagesFor w.publishing.turns wp = messagesOfLocked w.publishing.turns wp) ∧
      (∀ t ∈ w.publishing.finished, wp ∈ t.locked ↔ wp ∈ t.members) ∧
      (w.publishing.owned wp = false → ¬ FailedWrite as wp →
        (w.conn wp).written = messagesFor w.publishing.turns wp) := by
  have h := carries_run hrun
  obtain ⟨acts, hacts⟩ := h.carried wp
  have hsent : w.publishing.sent wp = messagesFor w.publishing.turns wp := h.delivers.sent wp
  refine ⟨?_, ?_, hacts.outstanding_le, ?_, ?_, ?_⟩
  · intro hheld
    exact h.held wp (Wire.held_eq_true.mpr hheld)
  · rw [← hsent]
    exact hacts.sent_eq
  · intro howned
    rw [messagesFor, messagesOfLocked]
    refine congrArg (List.map Turn.message) (List.filter_congr fun t ht => ?_)
    rw [decide_eq_decide]
    exact h.kept.found howned ht
  · intro t ht
    have hcovers := (h.delivers.finished t ht).mem wp
    rwa [List.append_nil] at hcovers
  · intro hgone hno
    rw [← hsent]
    exact h.gone hgone hno

/-! ## Draining -/

/-- The handlers of a session that do not fail. -/
def WireAction.Own (wp : WeakPtr ω) (a : WireAction ω) : Prop :=
  a = .onSend wp ∨ a = .onWrite wp 0 false

variable (parseJson) in
/-- The strand runs what is posted. -/
theorem run_posted (wp : WeakPtr ω) (posted : List Str) :
    ∀ {w : Wire ω}, w.runs wp = true → w.posted wp = posted →
      ∃ w', Runs.Leads (wireStep parseJson) (WireAction.Own wp) w w' ∧
        w'.publishing = w.publishing ∧ w'.posted wp = [] := by
  induction posted with
  | nil => exact fun _ hposted => ⟨_, .refl _, rfl, hposted⟩
  | cons ss rest ih =>
      intro w hruns hposted
      have hstep : wireStep parseJson w (.onSend wp) = some
          { w with
            posted := Function.update w.posted wp rest
            conn := Function.update w.conn wp ((w.conn wp).onSend ss) } := by
        simp only [wireStep, hruns, hposted, if_true]
      obtain ⟨w', hleads, hpublishing, hnone⟩ := ih (w := { w with
        posted := Function.update w.posted wp rest
        conn := Function.update w.conn wp ((w.conn wp).onSend ss) }) hruns
        (Function.update_self ..)
      exact ⟨w', .head (.inl rfl) hstep hleads, hpublishing, hnone⟩

/-- The writes of what is in the queue complete, one after the other. -/
theorem run_queue {cfg : Str} (wp : WeakPtr ω) (queue : List Str) :
    ∀ {as : List (WireAction ω)} {w : Wire ω},
      Runs.run (wireStep parseJson) (.start cfg) as = some w → ¬ FailedWrite as wp →
      w.runs wp = true → (w.conn wp).queue = queue →
      ∃ w', Runs.Leads (wireStep parseJson) (WireAction.Own wp) w w' ∧
        w'.publishing = w.publishing ∧ w'.posted = w.posted ∧ (w'.conn wp).queue = [] := by
  induction queue with
  | nil => exact fun _ _ _ hqueue => ⟨_, .refl _, rfl, rfl, hqueue⟩
  | cons ss rest ih =>
      intro as w hrun hno hruns hqueue
      obtain ⟨acts, hacts⟩ := (carries_run hrun).carried wp
      have hout : (w.conn wp).outstanding = [ss] := by
        rw [hacts.writing hno, hqueue]
        rfl
      set conn := { w.conn wp with outstanding := [] }.onWrite ss false with hconn
      have hstep : wireStep parseJson w (.onWrite wp 0 false) =
          some { w with conn := Function.update w.conn wp conn } := by
        simp only [wireStep, hruns, WriteQueue.step, hout, if_true, List.getElem?_cons_zero,
          List.eraseIdx_cons_zero, hconn]
      have hrest : (Function.update w.conn wp conn wp).queue = rest := by
        rw [Function.update_self]
        exact (WriteQueue.onWrite_front (s := { w.conn wp with outstanding := [] }) hqueue rfl).2.1
      have hno' : ¬ FailedWrite (as ++ [.onWrite wp 0 false]) wp := by
        rintro ⟨i, hi⟩
        rcases List.mem_append.mp hi with hi | hi
        · exact hno ⟨i, hi⟩
        · cases List.mem_singleton.mp hi
      obtain ⟨w', hleads, hpublishing, hposted, hnone⟩ :=
        ih (w := { w with conn := Function.update w.conn wp conn })
          (Runs.run_concat_eq_some.mpr ⟨w, hrun, hstep⟩) hno' hruns hrest
      exact ⟨w', .head (.inr rfl) hstep hleads, hpublishing, hposted, hnone⟩

omit [DecidableEq ω] in
/-- Handlers that do not fail leave no failed write behind. -/
theorem not_failedWrite_append {as bs : List (WireAction ω)} {wp : WeakPtr ω}
    (hno : ¬ FailedWrite as wp) (hown : ∀ b ∈ bs, WireAction.Own wp b) :
    ¬ FailedWrite (as ++ bs) wp := by
  rintro ⟨i, hi⟩
  rcases List.mem_append.mp hi with hi | hi
  · exact hno ⟨i, hi⟩
  · rcases hown _ hi with heq | heq <;> cases heq

/-- The strand runs what is posted, and then the writes complete. -/
theorem drain_session {cfg : Str} {as : List (WireAction ω)} {w : Wire ω}
    (hrun : Runs.run (wireStep parseJson) (.start cfg) as = some w) {wp : WeakPtr ω}
    (hruns : w.runs wp = true) (hno : ¬ FailedWrite as wp) :
    ∃ w', Runs.Leads (wireStep parseJson) (WireAction.Own wp) w w' ∧
      w'.publishing = w.publishing ∧ w'.posted wp = [] ∧ (w'.conn wp).queue = [] := by
  obtain ⟨w₁, ⟨bs, hown, hrun₁⟩, hpublishing₁, hposted₁⟩ :=
    run_posted parseJson wp (w.posted wp) hruns rfl
  have hruns₁ : w₁.runs wp = true := by
    rw [Wire.runs, hpublishing₁]
    exact hruns
  obtain ⟨w₂, hleads₂, hpublishing₂, hposted₂, hqueue₂⟩ :=
    run_queue wp _ ((Runs.run_append_of_run hrun bs).trans hrun₁)
      (not_failedWrite_append hno hown) hruns₁ rfl
  refine ⟨w₂, .trans ⟨bs, hown, hrun₁⟩ hleads₂, hpublishing₂.trans hpublishing₁, ?_, hqueue₂⟩
  rw [hposted₂, hposted₁]

end Carrying

/-- The tick of `tickToTwoSessions` on its way: the second session's strand has
passed it to `on_send`. -/
def tickOnTheWire : List (WireAction Nat) :=
  tickToTwoSessions.map WireAction.publish ++ [.onSend ⟨1, 1⟩]

theorem wire_delivers_two_sessions :
    ∃ w : Wire Nat,
      Runs.run (wireStep clientParser) (.start twoTopics) tickOnTheWire = some w ∧
        messagesFor w.publishing.turns ⟨1, 1⟩ =
          (w.conn ⟨1, 1⟩).written ++ (w.conn ⟨1, 1⟩).queue ++ w.posted ⟨1, 1⟩ ∧
        (w.conn ⟨1, 1⟩).queue = ["3,101.5".toList] := by
  have hrun : Runs.run (wireStep clientParser) (.start twoTopics) tickOnTheWire = some _ := rfl
  exact ⟨_, hrun, (wire_delivers hrun ⟨1, 1⟩).2.1, by decide⟩

end SravzBackend.Web
