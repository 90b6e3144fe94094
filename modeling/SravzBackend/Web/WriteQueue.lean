/-
# `Web.WriteQueue` — one write at a time

A websocket session may have one `async_write` outstanding.  What it is given
to send goes into `queue_`, and stays at its front until its write completes.
Who starts the next write is decided by the length of the queue: `on_send`
does where the queue was empty, `on_write` where it is not yet.

An action is a call of `on_send` or the completion of one of the writes that
are outstanding.  `writes_in_order`: in every sequence of them no two writes
overlap and none is left out, until one fails, after which nothing is written.
-/
import SravzBackend.Lib.Runs

namespace SravzBackend.Web.WriteQueue

variable {μ : Type}

/-- `queue` is `queue_`; the rest is what is known of it outside: the messages
of the writes that have not completed, of those that have been started, and of
those that have completed without an error. -/
structure Session (μ : Type) where
  queue : List μ
  outstanding : List μ
  started : List μ
  written : List μ

namespace Session

def start : Session μ := ⟨[], [], [], []⟩

/-- `ws_.async_write(net::buffer(*queue_.front()), ...)`, called only where
there is a front. -/
def asyncWrite (s : Session μ) : Session μ :=
  match s.queue with
  | [] => s
  | ss :: _ => { s with outstanding := s.outstanding ++ [ss], started := s.started ++ [ss] }

/-- `websocket_session::on_send` -/
def onSend (s : Session μ) (ss : μ) : Session μ :=
  let s := { s with queue := s.queue ++ [ss] }
  if s.queue.length > 1 then s else s.asyncWrite

/-- `websocket_session::on_write`, for the write of `ss`.  The queue it erases
the front of is never empty (`queue_of_completion`). -/
def onWrite (s : Session μ) (ss : μ) (ec : Bool) : Session μ :=
  if ec then s
  else
    let s := { s with queue := s.queue.tail, written := s.written ++ [ss] }
    if s.queue.isEmpty then s else s.asyncWrite

end Session

inductive Action (μ : Type) where
  | onSend (ss : μ)
  | onWrite (i : Nat) (ec : Bool)
deriving DecidableEq

/-- A completion is that of an outstanding write, whichever the executor
picks. -/
def step (s : Session μ) : Action μ → Option (Session μ)
  | .onSend ss => some (s.onSend ss)
  | .onWrite i ec =>
      match s.outstanding[i]? with
      | some ss => some ({ s with outstanding := s.outstanding.eraseIdx i }.onWrite ss ec)
      | none => none

/-- The messages passed to `on_send`. -/
def sent (actions : List (Action μ)) : List μ :=
  actions.filterMap fun
    | .onSend ss => some ss
    | .onWrite _ _ => none

/-- A write has failed. -/
def Failed (actions : List (Action μ)) : Prop := ∃ i, .onWrite i true ∈ actions

/-! ## Before a failure, and after -/

/-- The front of the queue is being written, if there is one. -/
def Writing (s : Session μ) : Prop := s.outstanding = s.queue.head?.toList

/-- Nothing is being written, with the message whose write failed still at the
front. -/
def Stuck (s : Session μ) : Prop := s.outstanding = [] ∧ s.queue ≠ []

theorem writing_asyncWrite {s : Session μ} (h : s.outstanding = []) : Writing s.asyncWrite := by
  unfold Session.asyncWrite
  split
  · next hqueue => rw [Writing, h, hqueue]; rfl
  · next ss rest hqueue =>
      rw [Writing, h, hqueue]
      rfl

theorem asyncWrite_queue (s : Session μ) : s.asyncWrite.queue = s.queue := by
  unfold Session.asyncWrite
  split <;> rfl

theorem asyncWrite_written (s : Session μ) : s.asyncWrite.written = s.written := by
  unfold Session.asyncWrite
  split <;> rfl

/-- With something in the queue, `on_send` only adds to it. -/
theorem onSend_of_ne_nil {s : Session μ} (h : s.queue ≠ []) (ss : μ) :
    s.onSend ss = { s with queue := s.queue ++ [ss] } := by
  have hpos : 0 < s.queue.length := List.length_pos_iff.mpr h
  have hlength : (s.queue ++ [ss]).length > 1 := by
    rw [List.length_append, List.length_singleton]
    omega
  exact if_pos hlength

theorem onSend_of_nil {s : Session μ} (h : s.queue = []) (ss : μ) :
    s.onSend ss = { s with queue := [ss] }.asyncWrite := by
  rw [Session.onSend, h]
  rfl

theorem writing_onSend {s : Session μ} (h : Writing s) (ss : μ) : Writing (s.onSend ss) := by
  cases hqueue : s.queue with
  | nil =>
      rw [onSend_of_nil hqueue]
      refine writing_asyncWrite ?_
      rw [h, hqueue]
      rfl
  | cons first rest =>
      rw [onSend_of_ne_nil (hqueue ▸ List.cons_ne_nil first rest), Writing, h, hqueue]
      rfl

/-- Only the front can complete. -/
theorem queue_of_completion {s : Session μ} (h : Writing s) {i : Nat} {ss : μ}
    (hi : s.outstanding[i]? = some ss) :
    ∃ rest, s.queue = ss :: rest ∧ s.outstanding.eraseIdx i = [] := by
  rw [h] at hi ⊢
  cases hqueue : s.queue with
  | nil =>
      rw [hqueue] at hi
      cases hi
  | cons first rest =>
      rw [hqueue] at hi
      cases i with
      | zero =>
          cases hi
          exact ⟨rest, rfl, rfl⟩
      | succ i => cases hi

/-- A write that has gone well is taken off the queue, and the next one is
started. -/
theorem onWrite_front {s : Session μ} {ss : μ} {rest : List μ} (hqueue : s.queue = ss :: rest)
    (hnone : s.outstanding = []) :
    Writing (s.onWrite ss false) ∧ (s.onWrite ss false).queue = rest ∧
      (s.onWrite ss false).written = s.written ++ [ss] := by
  rw [Session.onWrite, if_neg Bool.false_ne_true]
  dsimp only
  rw [hqueue, List.tail_cons]
  split
  · next hempty =>
      refine ⟨?_, rfl, rfl⟩
      rw [Writing, hnone, List.isEmpty_iff.mp hempty]
      rfl
  · refine ⟨writing_asyncWrite hnone, ?_, ?_⟩
    · rw [asyncWrite_queue]
    · rw [asyncWrite_written]

/-! ## Runs -/

/-- What holds after any actions: what has been sent is what has been written
and what is in the queue, and the front is being written or has failed. -/
structure Inv (actions : List (Action μ)) (s : Session μ) : Prop where
  sent_eq : sent actions = s.written ++ s.queue
  phase : (¬ Failed actions ∧ Writing s) ∨ (Failed actions ∧ Stuck s)

theorem sent_concat_onSend (pre : List (Action μ)) (ss : μ) :
    sent (pre ++ [.onSend ss]) = sent pre ++ [ss] := by
  rw [sent, List.filterMap_append]
  rfl

theorem sent_concat_onWrite (pre : List (Action μ)) (i : Nat) (ec : Bool) :
    sent (pre ++ [.onWrite i ec]) = sent pre := by
  rw [sent, List.filterMap_append]
  exact List.append_nil _

theorem failed_concat_iff (pre : List (Action μ)) (a : Action μ) :
    Failed (pre ++ [a]) ↔ Failed pre ∨ ∃ i, a = .onWrite i true := by
  unfold Failed
  simp only [List.mem_append, List.mem_singleton, exists_or, eq_comm]

theorem onSend_queue (s : Session μ) (ss : μ) : (s.onSend ss).queue = s.queue ++ [ss] := by
  cases hqueue : s.queue with
  | nil => rw [onSend_of_nil hqueue, asyncWrite_queue]; rfl
  | cons first rest => rw [onSend_of_ne_nil (hqueue ▸ List.cons_ne_nil first rest), hqueue]

theorem onSend_written (s : Session μ) (ss : μ) : (s.onSend ss).written = s.written := by
  cases hqueue : s.queue with
  | nil => rw [onSend_of_nil hqueue, asyncWrite_written]
  | cons first rest => rw [onSend_of_ne_nil (hqueue ▸ List.cons_ne_nil first rest)]

/-- A stuck session takes messages, and nothing completes. -/
theorem stuck_step {s s' : Session μ} {a : Action μ} (h : Stuck s) (ha : step s a = some s') :
    Stuck s' ∧ s'.started = s.started ∧ ∃ ss, a = .onSend ss := by
  cases a with
  | onSend ss =>
      cases ha
      rw [onSend_of_ne_nil h.2]
      exact ⟨⟨h.1, List.append_ne_nil_of_right_ne_nil _ (List.cons_ne_nil ss [])⟩, rfl, ss, rfl⟩
  | onWrite i ec =>
      rw [step, h.1, List.getElem?_nil] at ha
      cases ha

theorem inv_step {pre : List (Action μ)} {s s' : Session μ} {a : Action μ} (h : Inv pre s)
    (ha : step s a = some s') : Inv (pre ++ [a]) s' := by
  obtain ⟨hsent, hphase⟩ := h
  cases a with
  | onSend ss =>
      have hfailed : Failed (pre ++ [.onSend ss]) ↔ Failed pre := by
        rw [failed_concat_iff]
        simp
      refine ⟨?_, ?_⟩
      · cases ha
        rw [sent_concat_onSend, hsent, onSend_queue, onSend_written, List.append_assoc]
      · rw [hfailed]
        rcases hphase with ⟨hno, hwriting⟩ | ⟨hfail, hstuck⟩
        · cases ha
          exact .inl ⟨hno, writing_onSend hwriting ss⟩
        · exact .inr ⟨hfail, (stuck_step hstuck ha).1⟩
  | onWrite i ec =>
      rcases hphase with ⟨hno, hwriting⟩ | ⟨_, hstuck⟩
      · rw [step] at ha
        split at ha
        · next ss hi =>
            obtain ⟨rest, hqueue, hnone⟩ := queue_of_completion hwriting hi
            rw [hnone] at ha
            cases ha
            cases ec with
            | true =>
                refine ⟨?_, .inr ⟨(failed_concat_iff _ _).mpr (.inr ⟨i, rfl⟩), rfl, ?_⟩⟩
                · rw [sent_concat_onWrite, hsent]
                  rfl
                · exact hqueue ▸ List.cons_ne_nil ss rest
            | false =>
                have hfailed : ¬ Failed (pre ++ [.onWrite i false]) := by
                  rw [failed_concat_iff]
                  rintro (hfail | ⟨_, hec⟩)
                  · exact hno hfail
                  · cases hec
                obtain ⟨hnext, hrest, hwritten⟩ :=
                  onWrite_front (s := { s with outstanding := [] }) hqueue rfl
                refine ⟨?_, .inl ⟨hfailed, hnext⟩⟩
                rw [hrest, hwritten, sent_concat_onWrite, hsent, hqueue, List.append_assoc]
                rfl
        · cases ha
      · obtain ⟨_, _, ss, hss⟩ := stuck_step hstuck ha
        cases hss

theorem inv_start : Inv [] (Session.start : Session μ) :=
  ⟨rfl, .inl ⟨fun ⟨_, hi⟩ => absurd hi List.not_mem_nil, rfl⟩⟩

theorem inv_run {actions : List (Action μ)} {s : Session μ}
    (h : Runs.run step .start actions = some s) : Inv actions s :=
  Runs.run_inv_history inv_start (fun _ hs ha => inv_step hs ha) h

/-- Nothing is started from a stuck session. -/
theorem stuck_run {actions : List (Action μ)} {s t : Session μ} (hs : Stuck s)
    (h : Runs.run step s actions = some t) : t.started = s.started := by
  have hinv := Runs.run_inv (P := fun m => Stuck m ∧ m.started = s.started) (G := fun _ => True)
    (fun {m _ _} hm _ ha =>
      have hstep := stuck_step hm.1 ha
      ⟨hstep.1, hstep.2.1.trans hm.2⟩)
    ⟨hs, rfl⟩ (fun _ _ => trivial) h
  exact hinv.2

/-- **In every sequence of sends and completions at most one write is
outstanding; until one fails it is that of the front of the queue, if there is
a front; what has been written is the beginning of what has been sent; and
after a failure nothing is started.** -/
theorem writes_in_order {actions : List (Action μ)} {s : Session μ}
    (h : Runs.run step .start actions = some s) :
    s.outstanding.length ≤ 1 ∧
      (¬ Failed actions → s.outstanding = s.queue.head?.toList) ∧
      s.written <+: sent actions ∧
      ∀ pre i post m, actions = pre ++ .onWrite i true :: post →
        Runs.run step .start (pre ++ [.onWrite i true]) = some m → s.started = m.started := by
  obtain ⟨hsent, hphase⟩ := inv_run h
  refine ⟨?_, ?_, ⟨s.queue, hsent.symm⟩, ?_⟩
  · rcases hphase with ⟨_, hwriting⟩ | ⟨_, hnone, _⟩
    · rw [hwriting]
      cases s.queue with
      | nil => exact Nat.zero_le 1
      | cons ss rest => exact Nat.le_refl 1
    · rw [hnone]
      exact Nat.zero_le 1
  · intro hno
    rcases hphase with ⟨_, hwriting⟩ | ⟨hfail, _⟩
    · exact hwriting
    · exact absurd hfail hno
  · rintro pre i post m rfl hm
    have hfail : Failed (pre ++ [.onWrite i true]) := ⟨i, by simp⟩
    have hstuck : Stuck m := by
      rcases (inv_run hm).phase with ⟨hno, _⟩ | ⟨_, hstuck⟩
      · exact absurd hfail hno
      · exact hstuck
    rw [List.append_cons, Runs.run_append_of_run hm] at h
    exact stuck_run hstuck h

/-- Three messages, of which the second cannot be written. -/
theorem second_write_fails :
    ([1] : List Nat) <+:
      sent [.onSend 1, .onSend 2, .onWrite 0 false, .onWrite 0 true, .onSend 3] :=
  (writes_in_order (s := ⟨[2, 3], [], [1, 2], [1]⟩) rfl).2.2.1

end SravzBackend.Web.WriteQueue
