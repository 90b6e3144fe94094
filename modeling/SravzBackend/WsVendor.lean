/-
# `WsVendor` — from the vendor's websocket to Redis

`session` keeps one `ThreadInfo`, a buffer and a Redis connection, for every
thread that runs the `io_context`.  The handlers `on_write` and `on_read` run
one at a time on `ws_strand_`, but each on any of the threads, and each looks
up the entry of the thread it happens to run on: `on_write` to give its buffer
to the first read, `on_read` to decode and clear its buffer and to give it to
the next read.  The buffer a message arrives in is therefore that of the
thread that *issued* the read, and the buffer that is decoded that of the
thread that runs the *completion*.

`published_in_order_iff`: whatever the vendor sends, exactly the messages that
name a symbol are published, in order and each before the next read, if and
only if all the handlers run on one thread.
-/
import Mathlib.Data.List.Induction
import Mathlib.Logic.Function.Basic
import SravzBackend.Lib.Runs
import SravzBackend.Json

namespace SravzBackend.WsVendor

variable {θ : Type} [DecidableEq θ]

/-! ## The session -/

/-- `ThreadInfo`; `redis` says whether the pointer holds a connection. -/
structure ThreadInfo where
  buffer : Str
  redis : Bool

/-- `ThreadInfo()`, which `operator[]` inserts for a thread it does not know. -/
def ThreadInfo.default : ThreadInfo := ⟨[], false⟩

/-- What the strand is waiting for.  A read is outstanding into the buffer of
the thread that issued it. -/
inductive Phase (θ : Type) where
  | writing
  | reading (issuer : θ)
  | arrived (issuer : θ)
  | stopped

/-- The part of `session` the handlers use, and what has been published. -/
structure Session (θ : Type) where
  threadsInfo : θ → Option ThreadInfo
  phase : Phase θ
  published : List (Str × Str)

/-- `session::register_thread`: an entry that is there is not replaced. -/
def Session.registerThread (st : Session θ) (th : θ) : Session θ :=
  match st.threadsInfo th with
  | some _ => st
  | none => { st with threadsInfo := Function.update st.threadsInfo th (some ⟨[], true⟩) }

/-- The session once the given threads have registered and the greeting is
being written. -/
def Session.start (threads : List θ) : Session θ :=
  threads.foldl Session.registerThread ⟨fun _ => none, .writing, []⟩

/-- `threadsInfo_[th]`. -/
def Session.info (st : Session θ) (th : θ) : ThreadInfo :=
  (st.threadsInfo th).getD .default

def Session.setInfo (st : Session θ) (th : θ) (ti : ThreadInfo) : Session θ :=
  { st with threadsInfo := Function.update st.threadsInfo th (some ti) }

/-- `ws_.async_read(threadsInfo_[th].buffer, …)`. -/
def Session.asyncRead (st : Session θ) (th : θ) : Session θ :=
  { st.setInfo th (st.info th) with phase := .reading th }

/-! ## The handlers -/

variable (parseJson : JsonParser)

/-- The channel a message is published on: the string field `"s"` of a JSON
object. -/
def channel (message : Str) : Except JsonError Str := do
  let val ← parseJson message
  let obj ← val.asObject
  let s ← objectAt obj "s".toList
  s.toStr

/-- The `try` block of `on_read`; `none` when it reaches a null connection. -/
def Session.publish (st : Session θ) (th : θ) (message : Str) : Option (Session θ) :=
  match channel parseJson message with
  | .error _ => some st
  | .ok s =>
      if (st.info th).redis then some { st with published := st.published ++ [(s, message)] }
      else none

def Session.clearBuffer (st : Session θ) (th : θ) : Session θ :=
  st.setInfo th { st.info th with buffer := [] }

/-- `session::on_write` on thread `th`. -/
def Session.onWrite (st : Session θ) (ec : Bool) (th : θ) : Session θ :=
  if ec then { st with phase := .stopped } else st.asyncRead th

/-- `session::on_read` on thread `th`. -/
def Session.onRead (st : Session θ) (ec : Bool) (th : θ) : Option (Session θ) :=
  if ec then some { st with phase := .stopped }
  else do
    let st ← st.publish parseJson th (st.info th).buffer
    return (st.clearBuffer th).asyncRead th

/-- The completion of the write, the arrival of a message, the completion of a
read; the handlers say which thread they run on. -/
inductive Event (θ : Type) where
  | onWrite (ec : Bool) (th : θ)
  | arrive (msg : Str)
  | onRead (ec : Bool) (th : θ)

/-- A message is appended to the buffer the outstanding read was given. -/
def step (st : Session θ) : Event θ → Option (Session θ)
  | .onWrite ec th =>
      match st.phase with
      | .writing => some (st.onWrite ec th)
      | _ => none
  | .arrive msg =>
      match st.phase with
      | .reading issuer =>
          let ti := st.info issuer
          some { st.setInfo issuer { ti with buffer := ti.buffer ++ msg } with
            phase := .arrived issuer }
      | _ => none
  | .onRead ec th =>
      match st.phase with
      | .reading _ => if ec then st.onRead parseJson ec th else none
      | .arrived _ => st.onRead parseJson ec th
      | _ => none

/-- The write completes on `th₀`; then message after message arrives, each
with the thread its completion runs on. -/
def deliveries (th₀ : θ) (xs : List (Str × θ)) : List (Event θ) :=
  .onWrite false th₀ :: xs.flatMap fun x => [.arrive x.1, .onRead false x.2]

/-- What ought to be published of a message. -/
def publication (msg : Str) : Option (Str × Str) :=
  match channel parseJson msg with
  | .ok s => some (s, msg)
  | .error _ => none

/-- After every delivery, with the next read just issued, exactly the messages
so far that name a symbol have been published, each once, as it came. -/
def PublishedInOrder (threads : List θ) (th₀ : θ) (xs : List (Str × θ)) : Prop :=
  ∀ pre post, xs = pre ++ post → ∃ st,
    Runs.run (step parseJson) (.start threads) (deliveries th₀ pre) = some st ∧
      st.published = pre.filterMap (fun x => publication parseJson x.1)

variable {parseJson}

/-! ## What a run looks like as long as one thread does the work -/

/-- Only `th₀` has ever been given a message, and it has dealt with it. -/
structure Quiet (threads : List θ) (th₀ : θ) (st : Session θ) : Prop where
  phase : st.phase = .reading th₀
  infos : ∀ th ∈ threads, st.threadsInfo th = some ⟨[], true⟩

/-- Registering makes one entry for every thread, and no other. -/
theorem start_spec (threads : List θ) :
    (Session.start threads).phase = .writing ∧ (Session.start threads).published = [] ∧
      ∀ th, (Session.start threads).threadsInfo th =
        if th ∈ threads then some ⟨[], true⟩ else none := by
  unfold Session.start
  induction threads using List.reverseRecOn with
  | nil => exact ⟨rfl, rfl, fun th => by simp⟩
  | append_singleton threads x ih =>
      obtain ⟨hphase, hpublished, hinfo⟩ := ih
      rw [List.foldl_append, List.foldl_cons, List.foldl_nil, Session.registerThread, hinfo x]
      by_cases hx : x ∈ threads
      · rw [if_pos hx]
        refine ⟨hphase, hpublished, ?_⟩
        intro th
        rw [hinfo th]
        by_cases hth : th = x
        · subst hth
          simp [hx]
        · simp [hth]
      · rw [if_neg hx]
        refine ⟨hphase, hpublished, ?_⟩
        intro th
        by_cases hth : th = x
        · subst hth
          simp
        · simp [hinfo th, hth]

omit [DecidableEq θ] in
theorem deliveries_concat (th₀ : θ) (xs : List (Str × θ)) (msg : Str) (th : θ) :
    deliveries th₀ (xs ++ [(msg, th)]) =
      deliveries th₀ xs ++ [.arrive msg, .onRead false th] := by
  simp [deliveries]

theorem run_deliveries_concat {st st' : Session θ} {threads : List θ} {th₀ : θ}
    {xs : List (Str × θ)} {msg : Str} {th : θ}
    (hrun : Runs.run (step parseJson) (.start threads) (deliveries th₀ xs) = some st)
    (hlast : Runs.run (step parseJson) st [.arrive msg, .onRead false th] = some st') :
    Runs.run (step parseJson) (.start threads) (deliveries th₀ (xs ++ [(msg, th)])) =
      some st' := by
  rw [deliveries_concat, Runs.run_append_of_run hrun, hlast]

theorem quiet_start {threads : List θ} {th₀ : θ} (h₀ : th₀ ∈ threads) :
    ∃ st, Runs.run (step parseJson) (.start threads) (deliveries th₀ []) = some st ∧
      Quiet threads th₀ st ∧ st.published = [] := by
  obtain ⟨hphase, hpublished, hinfo⟩ := start_spec threads
  refine ⟨(Session.start threads).asyncRead th₀, ?_, ⟨rfl, ?_⟩, hpublished⟩
  · simp [deliveries, Runs.run, step, hphase, Session.onWrite]
  · intro th hth
    by_cases heq : th = th₀
    · subst heq
      simp [Session.asyncRead, Session.setInfo, Session.info, hinfo, hth]
    · simp [Session.asyncRead, Session.setInfo, Function.update_of_ne heq, hinfo, hth]

@[simp]
theorem info_setInfo_self (st : Session θ) (th : θ) (ti : ThreadInfo) :
    (st.setInfo th ti).info th = ti := by
  simp [Session.info, Session.setInfo]

theorem info_setInfo_of_ne (st : Session θ) {th th' : θ} (h : th' ≠ th) (ti : ThreadInfo) :
    (st.setInfo th ti).info th' = st.info th' := by
  simp [Session.info, Session.setInfo, Function.update_of_ne h]

omit [DecidableEq θ] in
theorem info_congr {st st' : Session θ} (h : st'.threadsInfo = st.threadsInfo) (th : θ) :
    st'.info th = st.info th := by
  unfold Session.info
  rw [h]

omit [DecidableEq θ] in
theorem Quiet.info {threads : List θ} {th₀ th : θ} {st : Session θ} (h : Quiet threads th₀ st)
    (hth : th ∈ threads) : st.info th = ⟨[], true⟩ := by
  simp [Session.info, h.infos th hth]

variable (parseJson) in
/-- The state between the arrival of a message and its completion. -/
theorem Quiet.arrive {threads : List θ} {th₀ : θ} {st : Session θ} (h : Quiet threads th₀ st)
    (h₀ : th₀ ∈ threads) (msg : Str) :
    ∃ st₁, step parseJson st (.arrive msg) = some st₁ ∧ st₁.phase = .arrived th₀ ∧
      st₁.threadsInfo = (st.setInfo th₀ ⟨msg, true⟩).threadsInfo ∧
      st₁.published = st.published := by
  refine ⟨{ st.setInfo th₀ ⟨msg, true⟩ with phase := .arrived th₀ }, ?_, rfl, rfl, rfl⟩
  simp only [step, h.phase, h.info h₀, List.nil_append]

theorem run_onRead {st st' : Session θ} {issuer th : θ} (hphase : st.phase = .arrived issuer)
    (hpublish : st.publish parseJson th (st.info th).buffer = some st') :
    Runs.run (step parseJson) st [.onRead false th] =
      some ((st'.clearBuffer th).asyncRead th) := by
  simp [Runs.run, step, hphase, Session.onRead, hpublish]

variable (parseJson) in
/-- A completion on the issuing thread publishes what it should. -/
theorem Quiet.deliver {threads : List θ} {th₀ : θ} {st : Session θ} (h : Quiet threads th₀ st)
    (h₀ : th₀ ∈ threads) (msg : Str) :
    ∃ st', Runs.run (step parseJson) st [.arrive msg, .onRead false th₀] = some st' ∧
      Quiet threads th₀ st' ∧
      st'.published = st.published ++ (publication parseJson msg).toList := by
  obtain ⟨st₁, harrive, hphase, hinfos, hpublished⟩ := h.arrive parseJson h₀ msg
  have hinfo : st₁.info th₀ = ⟨msg, true⟩ := by
    rw [info_congr hinfos, info_setInfo_self]
  have hpublish : ∃ st₂, st₁.publish parseJson th₀ msg = some st₂ ∧
      st₂.threadsInfo = st₁.threadsInfo ∧
      st₂.published = st.published ++ (publication parseJson msg).toList := by
    cases hc : channel parseJson msg with
    | error e =>
        refine ⟨st₁, by simp only [Session.publish, hc], rfl, ?_⟩
        simp [publication, hc, hpublished]
    | ok s =>
        refine ⟨{ st₁ with published := st₁.published ++ [(s, msg)] }, ?_, rfl, ?_⟩
        · simp only [Session.publish, hc, hinfo, if_true]
        · simp [publication, hc, hpublished]
  obtain ⟨st₂, hst₂, hinfos₂, hpublished₂⟩ := hpublish
  refine ⟨(st₂.clearBuffer th₀).asyncRead th₀, ?_, ⟨rfl, ?_⟩, hpublished₂⟩
  · rw [Runs.run_cons_of_step harrive]
    exact run_onRead hphase (by rw [hinfo]; exact hst₂)
  · intro th hth
    by_cases heq : th = th₀
    · subst heq
      simp [Session.asyncRead, Session.clearBuffer, Session.setInfo, Session.info, hinfos₂, hinfos]
    · simp [Session.asyncRead, Session.clearBuffer, Session.setInfo, Function.update_of_ne heq,
        hinfos₂, hinfos, h.infos th hth]

/-- A completion on another thread finds that thread's buffer empty. -/
theorem Quiet.deliver_elsewhere {threads : List θ} {th₀ th : θ} {st : Session θ}
    (h : Quiet threads th₀ st) (h₀ : th₀ ∈ threads) (hth : th ∈ threads) (hne : th ≠ th₀)
    (hempty : ∃ e, parseJson [] = .error e) (msg : Str) :
    ∃ st', Runs.run (step parseJson) st [.arrive msg, .onRead false th] = some st' ∧
      st'.published = st.published := by
  obtain ⟨st₁, harrive, hphase, hinfos, hpublished⟩ := h.arrive parseJson h₀ msg
  have hinfo : st₁.info th = ⟨[], true⟩ := by
    rw [info_congr hinfos, info_setInfo_of_ne st hne, h.info hth]
  have hpublish : st₁.publish parseJson th [] = some st₁ := by
    obtain ⟨e, he⟩ := hempty
    have hc : channel parseJson [] = .error e := by
      rw [channel, he]
      rfl
    simp only [Session.publish, hc]
  refine ⟨(st₁.clearBuffer th).asyncRead th, ?_, hpublished⟩
  rw [Runs.run_cons_of_step harrive]
  exact run_onRead hphase (by rw [hinfo]; exact hpublish)

/-! ## Every schedule on one thread, and no other -/

variable (parseJson) in
theorem quiet_run {threads : List θ} {th₀ : θ} (h₀ : th₀ ∈ threads) (xs : List (Str × θ))
    (hxs : ∀ x ∈ xs, x.2 = th₀) :
    ∃ st, Runs.run (step parseJson) (.start threads) (deliveries th₀ xs) = some st ∧
      Quiet threads th₀ st ∧
      st.published = xs.filterMap (fun x => publication parseJson x.1) := by
  induction xs using List.reverseRecOn with
  | nil => exact quiet_start h₀
  | append_singleton xs x ih =>
      obtain ⟨st, hrun, hquiet, hpublished⟩ := ih (fun y hy => hxs y (List.mem_append_left _ hy))
      obtain ⟨msg, th⟩ := x
      have hth : th = th₀ := hxs (msg, th) (by simp)
      subst hth
      obtain ⟨st', hlast, hquiet', hpublished'⟩ := hquiet.deliver parseJson h₀ msg
      refine ⟨st', run_deliveries_concat hrun hlast, hquiet', ?_⟩
      rw [hpublished', hpublished, List.filterMap_append]
      cases hp : publication parseJson msg <;> simp [hp]

/-- A list with an element other than `a` has a first one. -/
theorem exists_first_ne {α : Type} {a b : α} {l : List α} (hb : b ∈ l) (hne : b ≠ a) :
    ∃ pre c post, l = pre ++ c :: post ∧ (∀ x ∈ pre, x = a) ∧ c ≠ a := by
  induction l with
  | nil => exact absurd hb List.not_mem_nil
  | cons x l ih =>
      by_cases hx : x = a
      · have hbl : b ∈ l := (List.mem_cons.mp hb).resolve_left (fun h => hne (h.trans hx))
        obtain ⟨pre, c, post, rfl, hpre, hc⟩ := ih hbl
        refine ⟨x :: pre, c, post, rfl, ?_, hc⟩
        intro y hy
        rcases List.mem_cons.mp hy with rfl | hy
        · exact hx
        · exact hpre y hy
      · exact ⟨[], x, l, rfl, fun _ hy => absurd hy List.not_mem_nil, hx⟩

/-- **A schedule of the handlers over the threads publishes every sequence of
messages as it should exactly when it runs them all on one thread.**  Of the
parser this uses that the empty text is not JSON and that some text is an
object with a string `"s"`. -/
theorem published_in_order_iff (parseJson : JsonParser)
    (hempty : ∃ e, parseJson [] = .error e)
    (hobject : ∃ msg s, parseJson msg = .ok (.object [("s".toList, .string s)]))
    (threads : List θ) (th₀ : θ) (h₀ : th₀ ∈ threads) (ths : List θ)
    (hths : ∀ th ∈ ths, th ∈ threads) :
    (∀ xs : List (Str × θ), xs.map Prod.snd = ths → PublishedInOrder parseJson threads th₀ xs) ↔
      ∀ th ∈ ths, th = th₀ := by
  constructor
  · intro h
    by_contra hother
    push Not at hother
    obtain ⟨th', hmem', hne'⟩ := hother
    obtain ⟨pre, th, post, rfl, hpre, hne⟩ := exists_first_ne hmem' hne'
    obtain ⟨msg, s, hmsg⟩ := hobject
    -- the same message throughout; the first completion elsewhere loses it
    have hxs := h ((pre ++ th :: post).map fun t => (msg, t)) (by simp [Function.comp_def])
    obtain ⟨st, hrun, hquiet, hpublished⟩ := quiet_run parseJson h₀
      (pre.map fun t => (msg, t)) (by simpa using hpre)
    obtain ⟨st', hlast, hsame⟩ := hquiet.deliver_elsewhere h₀ (hths th (by simp)) hne hempty msg
    obtain ⟨st'', hrun'', hpublished''⟩ := hxs ((pre.map fun t => (msg, t)) ++ [(msg, th)])
      (post.map fun t => (msg, t)) (by simp)
    rw [run_deliveries_concat hrun hlast, Option.some.injEq] at hrun''
    subst hrun''
    rw [hsame, hpublished, List.filterMap_append] at hpublished''
    have hp : publication parseJson msg = some (s, msg) := by
      have hc : channel parseJson msg = .ok s := by
        rw [channel, hmsg]
        rfl
      simp only [publication, hc]
    simp [hp] at hpublished''
  · intro h xs hmap pre post hsplit
    have hpre : ∀ x ∈ pre, x.2 = th₀ := by
      intro x hx
      refine h x.2 ?_
      rw [← hmap, hsplit]
      exact List.mem_map_of_mem (List.mem_append_left post hx)
    obtain ⟨st, hrun, _, hpublished⟩ := quiet_run parseJson h₀ pre hpre
    exact ⟨st, hrun, hpublished⟩

def ethQuote : Str := "\x7b\"s\":\"ETH-USD\"\x7d".toList

def quotes : JsonParser :=
  tableParser [(ethQuote, .object [("s".toList, .string "ETH-USD".toList)])]

theorem published_in_order_three_threads :
    (∀ xs : List (Str × Nat), xs.map Prod.snd = [2, 2] →
        PublishedInOrder quotes [1, 2, 3] 2 xs) ↔ ∀ th ∈ [2, 2], th = 2 :=
  published_in_order_iff quotes ⟨.badText, rfl⟩ ⟨ethQuote, "ETH-USD".toList, rfl⟩ [1, 2, 3] 2
    (by decide) [2, 2] (by decide)

/-- The first quote is lost when its read was issued on thread 1 and completes
on thread 2. -/
theorem quote_lost_between_threads :
    (channel quotes ethQuote).toOption = some "ETH-USD".toList ∧
      ¬ PublishedInOrder quotes [1, 2, 3] 1 [(ethQuote, 2)] := by
  refine ⟨rfl, ?_⟩
  intro h
  obtain ⟨st, hrun, hpublished⟩ := h [(ethQuote, 2)] [] rfl
  have hlost : (Runs.run (step quotes) (.start [1, 2, 3])
      (deliveries 1 [(ethQuote, 2)])).map Session.published = some [] := rfl
  rw [hrun, Option.map_some, Option.some.injEq, hpublished] at hlost
  exact absurd hlost (by decide)

end SravzBackend.WsVendor
