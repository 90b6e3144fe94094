/-
# `Web.Conversation` — what is said on an HTTP connection

Over the runs of `Web.HttpLifetime`: which requests are read and which
responses are written, however the strand of the connection, the background
worker and the listener are interleaved and however many partial writes there
are.

`one_answer`: one request is read, whatever it says about keeping the
connection alive; at most one response is started, and it is the answer to
that request; the session ends, and it has started its answer when it does.
What has been started and what is owed are together the answer, at every step.
-/
import SravzBackend.Web.HttpLifetime

namespace SravzBackend.HttpSession

variable (lib : Libraries) (cfg : Config) (route : Router) (threadId : Str)
  (ec : Option ReadError) (req : Request)

/-! ## What is started, and what is owed -/

/-- What comes of an action of `on_read`. -/
def Action.answer : Action → Option Response
  | .write res => some res
  | .post req => (backgroundTask lib cfg route req).map (doWrite threadId)
  | .websocketSession _ => none
  | .shutdownSend => none
  | .fail => none

/-- The answer to what is read: none to an error. -/
def answer : Option Response :=
  match ec with
  | none => written lib cfg route threadId req
  | some _ => none

/-- The response whose `async_write` a step starts. -/
def started (c : Conn) : ConnAction → List Response
  | .onReadActs _ =>
      match onRead lib cfg ec req with
      | .write res => [res]
      | _ => []
  | .doWriteActs _ =>
      match c.strand with
      | .doWrite (some res) => [doWrite threadId res]
      | _ => []
  | _ => []

/-- The responses that a run has started to write, oldest first. -/
def responses (as : List ConnAction) : List Response :=
  Runs.outputs (connStep lib cfg route threadId ec req) (started lib cfg threadId ec req) .start as

def Strand.owed : Strand → List Response
  | .reading => (answer lib cfg route threadId ec req).toList
  | .onRead false => (answer lib cfg route threadId ec req).toList
  | .onRead true => []
  | .doWrite (some res) => [HttpSession.doWrite threadId res]
  | .doWrite none => []
  | .onWrite _ => []
  | .idle => []

def Task.owed : Task → List Response
  | .absent => []
  | .queued req => ((backgroundTask lib cfg route req).map (doWrite threadId)).toList
  | .running req => ((backgroundTask lib cfg route req).map (doWrite threadId)).toList
  | .returning => []

/-- The responses that are still to be started. -/
def Conn.owed (c : Conn) : List Response :=
  c.strand.owed lib cfg route threadId ec req ++ c.task.owed lib cfg route threadId ++
    (c.posted.map (doWrite threadId)).toList

theorem answer_eq : answer lib cfg route threadId ec req =
    (onRead lib cfg ec req).answer lib cfg route threadId := by
  cases ec with
  | none =>
      show written lib cfg route threadId req = _
      unfold written Action.answer
      cases onRead lib cfg none req <;> rfl
  | some e => cases e <;> rfl

variable {lib cfg route threadId ec req}

/-- `responses` have been started.  Before `on_read` has acted there is no task,
no call of `do_write` and no write, and while the task works there is no call
of `do_write`, so that none of them is replaced. -/
structure Conn.Owes (lib : Libraries) (cfg : Config) (route : Router) (threadId : Str)
    (ec : Option ReadError) (req : Request) (responses : List Response) (c : Conn) : Prop where
  owed : responses ++ c.owed lib cfg route threadId ec req =
    (answer lib cfg route threadId ec req).toList
  early : c.strand = .reading ∨ c.strand = .onRead false →
    c.task = .absent ∧ c.posted = none ∧ c.write = none
  working : ∀ req, c.task = .queued req ∨ c.task = .running req → c.posted = none
  write : ∀ w, c.write = some w → responses = [w.message]

section Step

variable {ws : List Response} {c : Conn}

/-- There is no room for a second response. -/
theorem eq_singleton {res : Response} {rest : List Response}
    (h : ws ++ (res :: rest) = (answer lib cfg route threadId ec req).toList) :
    ws ++ [res] = [res] := by
  have hlength := congrArg List.length h
  have hle : (answer lib cfg route threadId ec req).toList.length ≤ 1 :=
    Option.length_toList_le
  rw [List.length_append, List.length_cons] at hlength
  have hnil : ws = [] := List.eq_nil_of_length_eq_zero (by omega)
  rw [hnil, List.nil_append]

/-- The strand goes on to something that owes as much. -/
theorem Conn.Owes.goto (h : c.Owes lib cfg route threadId ec req ws) {strand : Strand}
    (howed : strand.owed lib cfg route threadId ec req = c.strand.owed lib cfg route threadId ec req)
    (hearly : strand = .reading ∨ strand = .onRead false →
      c.strand = .reading ∨ c.strand = .onRead false) :
    ({ c with strand := strand } : Conn).Owes lib cfg route threadId ec req ws := by
  refine ⟨?_, fun h' => h.early (hearly h'), h.working, h.write⟩
  rw [← h.owed]
  show ws ++ (strand.owed lib cfg route threadId ec req ++ _ ++ _) = _
  rw [howed]
  rfl

/-- What `on_read` does is owed from the start. -/
theorem Conn.Owes.act (h : c.Owes lib cfg route threadId ec req ws)
    (hstrand : c.strand = .onRead false) (n : Nat) :
    (c.act n (onRead lib cfg ec req)).Owes lib cfg route threadId ec req
      (ws ++ started lib cfg threadId ec req c (.onReadActs n)) := by
  obtain ⟨listener, strand, task, posted, write⟩ := c
  cases hstrand
  obtain ⟨rfl, rfl, rfl⟩ := h.early (.inr rfl)
  have howed : ws ++ (((answer lib cfg route threadId ec req).toList ++ []) ++ []) =
      (answer lib cfg route threadId ec req).toList := h.owed
  rw [List.append_nil, List.append_nil, List.append_left_eq_self] at howed
  subst howed
  unfold started
  have hanswer := congrArg Option.toList (answer_eq lib cfg route threadId ec req)
  have hnothing : (answer lib cfg route threadId ec req).toList = [] →
      (Conn.mk listener (.onRead true) .absent none none).Owes lib cfg route threadId ec req [] :=
    fun hnil => ⟨hnil.symm, fun _ => ⟨rfl, rfl, rfl⟩, fun _ _ => rfl, fun _ => nofun⟩
  generalize onRead lib cfg ec req = action at hanswer ⊢
  cases action with
  | write res =>
      refine ⟨hanswer.symm, ?_, fun _ _ => rfl, ?_⟩
      · rintro (⟨⟨⟩⟩ | ⟨⟨⟩⟩)
      · rintro w ⟨⟩
        rfl
  | post req' =>
      refine ⟨?_, ?_, fun _ _ => rfl, fun _ => nofun⟩
      · show [] ++ (([] ++ _) ++ []) = _
        rw [hanswer, List.append_nil]
        rfl
      · rintro (⟨⟨⟩⟩ | ⟨⟨⟩⟩)
  | websocketSession req' => exact hnothing hanswer
  | shutdownSend => exact hnothing hanswer
  | fail => exact hnothing hanswer

theorem Conn.Owes.step {c' : Conn} {a : ConnAction}
    (h : c.Owes lib cfg route threadId ec req ws)
    (hstep : connStep lib cfg route threadId ec req c a = some c') :
    c'.Owes lib cfg route threadId ec req (ws ++ started lib cfg threadId ec req c a) := by
  have hsilent : ∀ {d : Conn}, d.Owes lib cfg route threadId ec req ws →
      d.Owes lib cfg route threadId ec req (ws ++ []) := fun hd => by rwa [List.append_nil]
  cases (connMove_of_step hstep).2 with
  | runReturns _ => exact hsilent ⟨h.owed, h.early, h.working, h.write⟩
  | readCompletes hstrand =>
      exact hsilent (h.goto (by rw [hstrand]; rfl) fun _ => .inl hstrand)
  | @onReadActs n hstrand => exact h.act hstrand n
  | onReadReturns hstrand => exact hsilent (h.goto (by rw [hstrand]; rfl) (by rintro (⟨⟨⟩⟩ | ⟨⟨⟩⟩)))
  | @taskStarts req' htask =>
      refine hsilent ⟨?_, ?_, ?_, h.write⟩
      · rw [← h.owed]
        unfold Conn.owed
        rw [htask]
        rfl
      · intro hearly
        have habsent := (h.early hearly).1
        rw [htask] at habsent
        cases habsent
      · exact fun _ _ => h.working req' (.inl htask)
  | @taskActs req' htask =>
      have hposted : c.posted = none := h.working req' (.inr htask)
      refine hsilent ⟨?_, ?_, ?_, h.write⟩
      · rw [← h.owed]
        unfold Conn.owed
        rw [htask, hposted]
        show ws ++ ((_ ++ []) ++ _) = ws ++ ((_ ++ _) ++ [])
        rw [List.append_nil, List.append_nil]
        rfl
      · intro hearly
        have habsent := (h.early hearly).1
        rw [htask] at habsent
        cases habsent
      · rintro req'' (⟨⟨⟩⟩ | ⟨⟨⟩⟩)
  | taskReturns htask =>
      refine hsilent ⟨?_, fun hearly => ⟨rfl, (h.early hearly).2⟩, ?_, h.write⟩
      · rw [← h.owed]
        unfold Conn.owed
        rw [htask]
        rfl
      · rintro req'' (⟨⟨⟩⟩ | ⟨⟨⟩⟩)
  | @doWriteStarts res hstrand hposted =>
      have htask : c.task.owed lib cfg route threadId = [] := by
        cases hc : c.task with
        | absent => rfl
        | queued req' =>
            rw [h.working req' (.inl hc)] at hposted
            cases hposted
        | running req' =>
            rw [h.working req' (.inr hc)] at hposted
            cases hposted
        | returning => rfl
      refine hsilent ⟨?_, ?_, fun _ _ => rfl, h.write⟩
      · rw [← h.owed]
        unfold Conn.owed
        rw [htask, hstrand, hposted]
        rfl
      · rintro (⟨⟨⟩⟩ | ⟨⟨⟩⟩)
  | @doWriteActs n res hstrand =>
      have howed := h.owed
      unfold Conn.owed at howed
      rw [hstrand] at howed
      have hone := eq_singleton howed
      unfold started
      rw [hstrand]
      refine ⟨?_, ?_, h.working, ?_⟩
      · rw [← howed]
        exact List.append_assoc ws _ _
      · rintro (⟨⟨⟩⟩ | ⟨⟨⟩⟩)
      · rintro w ⟨⟩
        exact hone
  | doWriteReturns hstrand =>
      exact hsilent (h.goto (by rw [hstrand]; rfl) (by rintro (⟨⟨⟩⟩ | ⟨⟨⟩⟩)))
  | @partialWrite message capturesSelf n hwrite =>
      refine hsilent ⟨h.owed, ?_, h.working, ?_⟩
      · intro hearly
        have hnone := (h.early hearly).2.2
        rw [hwrite] at hnone
        cases hnone
      · rintro w ⟨⟩
        exact h.write ⟨message, capturesSelf, n + 1⟩ hwrite
  | writeCompletes hstrand _ =>
      refine hsilent ⟨?_, ?_, h.working, fun _ => nofun⟩
      · rw [← h.owed]
        unfold Conn.owed
        rw [hstrand]
        rfl
      · rintro (⟨⟨⟩⟩ | ⟨⟨⟩⟩)
  | onWriteReturns hstrand =>
      exact hsilent (h.goto (by rw [hstrand]; rfl) (by rintro (⟨⟨⟩⟩ | ⟨⟨⟩⟩)))

end Step

end SravzBackend.HttpSession
