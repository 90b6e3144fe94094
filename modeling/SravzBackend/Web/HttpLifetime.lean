/-
# `Web.HttpLifetime` — who keeps an HTTP session alive

An `http_session` lives as long as there is a shared pointer to it, and the
only shared pointers are the copies that its handlers and tasks capture:
`async_read`'s handler and the local `self` of `on_read`, the handler of the
write that `on_read` starts, the task posted to the background worker, and the
call of `do_write` that the task posts back.  The handler of the write that
`do_write` starts captures `this`, which owns nothing.  Destroying the session
closes `stream_`.

A step is one thing that the strand of the connection, the background worker
or the listener does; `Conn.owners` lists the copies there are, by holder.
`write_outlived_iff`: over every interleaving, and however many partial writes
a response takes, the session outlives its own write exactly when the
background worker has no answer to write.
-/
import SravzBackend.Lib.Runs
import SravzBackend.Web.Responses

namespace SravzBackend.HttpSession

/-! ## The connection -/

/-- Who holds a shared pointer to the session. -/
inductive Owner where
  | listener
  | readHandler
  | onReadSelf
  | writeHandler
  | task
  | doWriteCall
deriving DecidableEq

/-- What the strand of the connection is doing: it waits for the request, runs
`on_read` before or after what that does for the request, runs `do_write`
before or after its write is started, or runs `on_write` from a handler that
has captured `self` or not; or none of these. -/
inductive Strand where
  | reading
  | onRead (acted : Bool)
  | doWrite (res : Option Response)
  | onWrite (capturesSelf : Bool)
  | idle

/-- The task of the background worker. -/
inductive Task where
  | absent
  | queued (req : Request)
  | running (req : Request)
  | returning

/-- An `async_write` that has not completed, and how many partial writes it
will still take. -/
structure Write where
  message : Response
  capturesSelf : Bool
  partialWrites : Nat

/-- `listener` is set while `listener::on_accept` holds the pointer it has made
the session with; `posted` is the call of `do_write` on its way to the strand. -/
structure Conn where
  listener : Bool
  strand : Strand
  task : Task
  posted : Option Response
  write : Option Write

/-- `run()` has issued the read, and has not returned. -/
def Conn.start : Conn := ⟨true, .reading, .absent, none, none⟩

/-- A handler that runs has been moved out of its queue, and goes when it
returns.  `handle_request` makes one more copy for a preflight, which goes
before `on_read` does. -/
def Strand.owners : Strand → List Owner
  | .reading => [.readHandler]
  | .onRead _ => [.readHandler, .onReadSelf]
  | .doWrite _ => [.doWriteCall]
  | .onWrite true => [.writeHandler]
  | .onWrite false => []
  | .idle => []

def Task.owners : Task → List Owner
  | .absent => []
  | .queued _ => [.task]
  | .running _ => [.task]
  | .returning => [.task]

def Write.owners (w : Write) : List Owner := if w.capturesSelf then [.writeHandler] else []

def Conn.owners (c : Conn) : List Owner :=
  (if c.listener then [.listener] else []) ++ c.strand.owners ++ c.task.owners ++
    (if c.posted.isSome then [.doWriteCall] else []) ++ c.write.elim [] Write.owners

inductive ConnAction where
  | runReturns
  | readCompletes
  | onReadActs (partialWrites : Nat)
  | onReadReturns
  | taskStarts
  | taskActs
  | taskReturns
  | doWriteStarts
  | doWriteActs (partialWrites : Nat)
  | doWriteReturns
  | partialWrite
  | writeCompletes
  | onWriteReturns

variable (lib : Libraries) (cfg : Config) (route : Router) (threadId : Str)

/-- What `on_read` does for the request, by what comes of it. -/
def Conn.act (c : Conn) (partialWrites : Nat) : Action → Conn
  | .write res => { c with strand := .onRead true, write := some ⟨res, true, partialWrites⟩ }
  | .post req => { c with strand := .onRead true, task := .queued req }
  | .websocketSession _ => { c with strand := .onRead true }
  | .shutdownSend => { c with strand := .onRead true }
  | .fail => { c with strand := .onRead true }

/-- The strand runs one handler at a time, the background worker beside it.
Without an owner the session is gone and its stream closed. -/
def connStep (ec : Option ReadError) (req : Request) (c : Conn) (a : ConnAction) : Option Conn :=
  if c.owners = [] then none
  else
    match a with
    | .runReturns => if c.listener then some { c with listener := false } else none
    | .readCompletes =>
        match c.strand with
        | .reading => some { c with strand := .onRead false }
        | _ => none
    | .onReadActs partialWrites =>
        match c.strand with
        | .onRead false => some (c.act partialWrites (onRead lib cfg ec req))
        | _ => none
    | .onReadReturns =>
        match c.strand with
        | .onRead true => some { c with strand := .idle }
        | _ => none
    | .taskStarts =>
        match c.task with
        | .queued req => some { c with task := .running req }
        | _ => none
    | .taskActs =>
        match c.task with
        | .running req =>
            some { c with task := .returning, posted := backgroundTask lib cfg route req }
        | _ => none
    | .taskReturns =>
        match c.task with
        | .returning => some { c with task := .absent }
        | _ => none
    | .doWriteStarts =>
        match c.strand, c.posted with
        | .idle, some res => some { c with strand := .doWrite (some res), posted := none }
        | _, _ => none
    | .doWriteActs partialWrites =>
        match c.strand with
        | .doWrite (some res) =>
            some { c with
              strand := .doWrite none
              write := some ⟨doWrite threadId res, false, partialWrites⟩ }
        | _ => none
    | .doWriteReturns =>
        match c.strand with
        | .doWrite none => some { c with strand := .idle }
        | _ => none
    | .partialWrite =>
        match c.write with
        | some ⟨message, capturesSelf, n + 1⟩ =>
            some { c with write := some ⟨message, capturesSelf, n⟩ }
        | _ => none
    | .writeCompletes =>
        match c.strand, c.write with
        | .idle, some ⟨_, capturesSelf, 0⟩ =>
            some { c with strand := .onWrite capturesSelf, write := none }
        | _, _ => none
    | .onWriteReturns =>
        match c.strand with
        | .onWrite _ => some { c with strand := .idle }
        | _ => none

/-- What a step finds and what it leaves, by the action. -/
inductive ConnMove (ec : Option ReadError) (req : Request) (c : Conn) :
    ConnAction → Conn → Prop where
  | runReturns (h : c.listener = true) :
      ConnMove ec req c .runReturns { c with listener := false }
  | readCompletes (h : c.strand = .reading) :
      ConnMove ec req c .readCompletes { c with strand := .onRead false }
  | onReadActs {n} (h : c.strand = .onRead false) :
      ConnMove ec req c (.onReadActs n) (c.act n (onRead lib cfg ec req))
  | onReadReturns (h : c.strand = .onRead true) :
      ConnMove ec req c .onReadReturns { c with strand := .idle }
  | taskStarts {req'} (h : c.task = .queued req') :
      ConnMove ec req c .taskStarts { c with task := .running req' }
  | taskActs {req'} (h : c.task = .running req') :
      ConnMove ec req c .taskActs
        { c with task := .returning, posted := backgroundTask lib cfg route req' }
  | taskReturns (h : c.task = .returning) :
      ConnMove ec req c .taskReturns { c with task := .absent }
  | doWriteStarts {res} (hstrand : c.strand = .idle) (hposted : c.posted = some res) :
      ConnMove ec req c .doWriteStarts { c with strand := .doWrite (some res), posted := none }
  | doWriteActs {n res} (h : c.strand = .doWrite (some res)) :
      ConnMove ec req c (.doWriteActs n)
        { c with strand := .doWrite none, write := some ⟨doWrite threadId res, false, n⟩ }
  | doWriteReturns (h : c.strand = .doWrite none) :
      ConnMove ec req c .doWriteReturns { c with strand := .idle }
  | partialWrite {message capturesSelf n} (h : c.write = some ⟨message, capturesSelf, n + 1⟩) :
      ConnMove ec req c .partialWrite { c with write := some ⟨message, capturesSelf, n⟩ }
  | writeCompletes {message capturesSelf} (hstrand : c.strand = .idle)
      (hwrite : c.write = some ⟨message, capturesSelf, 0⟩) :
      ConnMove ec req c .writeCompletes
        { c with strand := .onWrite capturesSelf, write := none }
  | onWriteReturns {capturesSelf} (h : c.strand = .onWrite capturesSelf) :
      ConnMove ec req c .onWriteReturns { c with strand := .idle }

variable {lib cfg route threadId} {ec : Option ReadError} {req : Request}

/-- Every step is one of the moves, of a session that has an owner. -/
theorem connMove_of_step {c c' : Conn} {a : ConnAction}
    (h : connStep lib cfg route threadId ec req c a = some c') :
    c.owners ≠ [] ∧ ConnMove lib cfg route threadId ec req c a c' := by
  unfold connStep at h
  split at h
  · cases h
  · next howners =>
      refine ⟨howners, ?_⟩
      -- each action has one branch that goes on, taken here in their order
      cases a <;> simp only at h <;> split at h <;> cases h
      · next hlistener => exact .runReturns hlistener
      · next hstrand => exact .readCompletes hstrand
      · next hstrand => exact .onReadActs hstrand
      · next hstrand => exact .onReadReturns hstrand
      · next htask => exact .taskStarts htask
      · next htask => exact .taskActs htask
      · next htask => exact .taskReturns htask
      · next hstrand hposted => exact .doWriteStarts hstrand hposted
      · next hstrand => exact .doWriteActs hstrand
      · next hstrand => exact .doWriteReturns hstrand
      · next hwrite => exact .partialWrite hwrite
      · next hstrand hwrite => exact .writeCompletes hstrand hwrite
      · next hstrand => exact .onWriteReturns hstrand

/-! ## Without an answer from the worker -/

/-- The only write is one that `on_read` has started. -/
structure Owns (lib : Libraries) (cfg : Config) (route : Router) (c : Conn) : Prop where
  posted : c.posted = none
  strand : ∀ res, c.strand ≠ .doWrite res
  task : ∀ req, c.task = .queued req ∨ c.task = .running req → backgroundTask lib cfg route req = none
  write : ∀ w, c.write = some w → w.capturesSelf = true

theorem owns_start : Owns lib cfg route Conn.start :=
  ⟨rfl, fun _ => nofun, fun _ => nofun, fun _ => nofun⟩

theorem Owns.owners_ne_nil {c : Conn} (h : Owns lib cfg route c) (hwrite : c.write.isSome) :
    c.owners ≠ [] := by
  obtain ⟨w, hw⟩ := Option.isSome_iff_exists.mp hwrite
  have howner : w.owners = [.writeHandler] := by rw [Write.owners, if_pos (h.write w hw)]
  rw [Conn.owners, hw, Option.elim_some, howner]
  simp

/-- The strand goes on to something that is not `do_write`. -/
theorem Owns.goto {c : Conn} (h : Owns lib cfg route c) {strand : Strand}
    (hstrand : ∀ res, strand ≠ .doWrite res) : Owns lib cfg route { c with strand := strand } :=
  ⟨h.posted, hstrand, h.task, h.write⟩

/-- Where the worker has no answer, what `on_read` does keeps it so. -/
theorem Owns.act {c : Conn} (h : Owns lib cfg route c) (n : Nat)
    (hno : ¬ (ec = none ∧ Posted lib cfg req ∧ Routed route req)) :
    Owns lib cfg route (c.act n (onRead lib cfg ec req)) := by
  have hkeep : Owns lib cfg route { c with strand := .onRead true } := h.goto fun _ => nofun
  have hwrite : ∀ res, Owns lib cfg route
      { c with strand := .onRead true, write := some ⟨res, true, n⟩ } := by
    refine fun res => ⟨h.posted, fun _ => nofun, h.task, ?_⟩
    rintro w ⟨⟩
    rfl
  cases ec with
  | some e => cases e <;> exact hkeep
  | none =>
      have hdispatched := dispatched lib cfg req
      generalize onRead lib cfg none req = action at hdispatched ⊢
      cases hdispatched with
      | text status why => exact hwrite _
      | head _ => exact hwrite _
      | preflight _ => exact hwrite _
      | upgrade _ => exact hkeep
      | posted hposted =>
          refine ⟨h.posted, fun _ => nofun, ?_, h.write⟩
          rintro req' (⟨⟨⟩⟩ | hrunning)
          · rw [backgroundTask_eq]
            split
            · rfl
            · next r hr => exact absurd ⟨rfl, hposted, _, hr⟩ hno
          · cases hrunning

theorem Owns.step {c c' : Conn} {a : ConnAction} (h : Owns lib cfg route c)
    (hno : ¬ (ec = none ∧ Posted lib cfg req ∧ Routed route req))
    (hstep : connStep lib cfg route threadId ec req c a = some c') : Owns lib cfg route c' := by
  cases (connMove_of_step hstep).2 with
  | runReturns _ => exact ⟨h.posted, h.strand, h.task, h.write⟩
  | readCompletes _ => exact h.goto fun _ => nofun
  | @onReadActs n _ => exact h.act n hno
  | onReadReturns _ => exact h.goto fun _ => nofun
  | @taskStarts req' hqueued =>
      refine ⟨h.posted, h.strand, ?_, h.write⟩
      rintro req'' (hq | ⟨⟨⟩⟩)
      · cases hq
      · exact h.task req' (.inl hqueued)
  | @taskActs req' hrunning =>
      refine ⟨h.task req' (.inr hrunning), h.strand, ?_, h.write⟩
      rintro req'' (hq | hr)
      · cases hq
      · cases hr
  | taskReturns _ =>
      refine ⟨h.posted, h.strand, ?_, h.write⟩
      rintro req'' (hq | hr)
      · cases hq
      · cases hr
  | doWriteStarts _ hposted =>
      rw [h.posted] at hposted
      cases hposted
  | doWriteActs hstrand => exact absurd hstrand (h.strand _)
  | doWriteReturns hstrand => exact absurd hstrand (h.strand _)
  | @partialWrite message capturesSelf n hwrite =>
      have hself : capturesSelf = true := h.write _ hwrite
      refine ⟨h.posted, h.strand, h.task, ?_⟩
      rintro w ⟨⟩
      exact hself
  | writeCompletes _ _ => exact ⟨h.posted, fun _ => nofun, h.task, fun _ => nofun⟩
  | onWriteReturns _ => exact h.goto fun _ => nofun

/-! ## With an answer from the worker -/

theorem onRead_of_posted (h : Posted lib cfg req) : onRead lib cfg none req = .post req := by
  have hdispatched := dispatched lib cfg req
  generalize onRead lib cfg none req = action at hdispatched ⊢
  cases hdispatched with
  | text status why hposted => exact absurd h hposted
  | head hmethod => exact absurd hmethod h.not_head
  | preflight hmethod => exact absurd hmethod h.not_options
  | upgrade hupgraded => exact absurd hupgraded h.not_upgraded
  | posted _ => rfl

/-- The task goes before the strand gets to `do_write`. -/
def workerFirst (partialWrites : Nat) : List ConnAction :=
  [.runReturns, .readCompletes, .onReadActs 0, .onReadReturns, .taskStarts, .taskActs,
    .taskReturns, .doWriteStarts, .doWriteActs partialWrites, .doWriteReturns]

/-- The write of `do_write` is under way, and nobody holds the session. -/
theorem run_workerFirst (threadId : Str) (n : Nat) (hposted : Posted lib cfg req)
    (hrouted : Routed route req) :
    ∃ c, Runs.run (connStep lib cfg route threadId none req) .start (workerFirst n) = some c ∧
      c.write.isSome ∧ c.owners = [] := by
  obtain ⟨⟨status, body⟩, hroute⟩ := hrouted
  have htask : backgroundTask lib cfg route req = some (workerResponse lib cfg req status body) := by
    rw [backgroundTask_eq, hroute]
  refine ⟨⟨false, .idle, .absent, none,
    some ⟨doWrite threadId (workerResponse lib cfg req status body), false, n⟩⟩, ?_, rfl, rfl⟩
  simp [workerFirst, Runs.run, connStep, Conn.start, Conn.owners, Strand.owners, Task.owners,
    Conn.act, onRead_of_posted hposted, htask]

/-- **Over every interleaving and every number of partial writes the session
has an owner while its write is under way, exactly when the background worker
has no answer to write.** -/
theorem write_outlived_iff (lib : Libraries) (cfg : Config) (route : Router) (threadId : Str)
    (ec : Option ReadError) (req : Request) :
    (∀ as c, Runs.run (connStep lib cfg route threadId ec req) .start as = some c →
        c.write.isSome → c.owners ≠ []) ↔
      ¬ (ec = none ∧ Posted lib cfg req ∧ Routed route req) := by
  constructor
  · rintro h ⟨rfl, hposted, hrouted⟩
    obtain ⟨c, hrun, hwrite, howners⟩ := run_workerFirst threadId 0 hposted hrouted
    exact h _ c hrun hwrite howners
  · intro hno as c hrun hwrite
    have howns : Owns lib cfg route c := Runs.run_inv (P := Owns lib cfg route)
      (G := fun _ => True) (fun h _ hstep => h.step hno hstep) owns_start (fun _ _ => trivial) hrun
    exact howns.owners_ne_nil hwrite

/-- A routed request; two partial writes are still to come when the last owner
goes. -/
theorem worker_write_orphaned :
    ∃ c, Runs.run (connStep plainLibraries plainConfig emptyObjectRouter "7f".toList none
        tokenRequest) .start (workerFirst 2) = some c ∧ c.write.isSome ∧ c.owners = [] :=
  ⟨_, rfl, rfl, rfl⟩

end SravzBackend.HttpSession
