/-
# `Vendor` — the whole of `ws_vendor`, on any number of threads

`ws_vendor` connects to the vendor in four stages, writes its greeting, and
reads; every thread that runs the `io_context` registers itself first, whenever
it is started.  A signal stops the `io_context`, and nothing else ends the
process: an error ends only the session (`vendor_never_reconnects`).

What comes of the messages when the handlers run on different threads
(`published_in_order_iff`) is not only loss.  A thread that issues a read finds
the message in its buffer the next time it runs a handler, be that the
completion of this read or of a later one.  `vendor_publishes`: on every thread
the texts that are decoded are the messages of the reads that the thread has
issued, in their order and whole, after one empty text if its first handler was
not `on_write`, and at most one message is still in its buffer.  So no message
is published twice, and no other text.
-/
import Mathlib.Data.Multiset.Filter
import SravzBackend.WsVendor

namespace SravzBackend.WsVendor

variable {θ : Type}

/-! ## The process -/

/-- What is asked of the network. -/
inductive Op (θ : Type) where
  | resolve (host port : Str)
  | connect
  | sslHandshake
  | handshake (host endpoint : Str)
  | write (text : Str)
  | read (th : θ)

def Op.reader : Op θ → Option θ
  | .read th => some th
  | _ => none

inductive Stage where
  | resolving
  | connecting
  | sslHandshaking
  | handshaking
  | established
  | failed
deriving DecidableEq

/-- `threads` have been started; `begun` is every operation that has been, in
order.  `arrivals` has each message with the thread that issued its read, and
`texts` what each completed `on_read` has found in its buffer; nothing reads
these three. -/
structure Vendor (θ : Type) where
  host : Str
  text : Str
  endpoint : Str
  threads : List θ
  stage : Stage
  session : Session θ
  stopped : Bool
  begun : List (Op θ)
  arrivals : List (θ × Str)
  texts : List (θ × Str)

inductive Action (θ : Type) where
  | register (th : θ)
  | onResolve (ec : Bool)
  | onConnect (ec sni : Bool) (port : Nat)
  | onSslHandshake (ec : Bool)
  | onHandshake (ec : Bool)
  | session (e : Event θ)
  | signal

/-- The thread a handler runs on. -/
def Event.thread : Event θ → Option θ
  | .onWrite _ th => some th
  | .arrive _ => none
  | .onRead _ th => some th

/-- The handler is given an error. -/
def Event.fails : Event θ → Bool
  | .onWrite ec _ => ec
  | .arrive _ => false
  | .onRead ec _ => ec

/-- The read that a handler issues. -/
def Event.reads : Event θ → List θ
  | .onWrite ec th => if ec then [] else [th]
  | .arrive _ => []
  | .onRead ec th => if ec then [] else [th]

/-- The message that comes with an event, for the read it answers. -/
def Session.arrival (st : Session θ) : Event θ → List (θ × Str)
  | .arrive msg =>
      match st.phase with
      | .reading issuer => [(issuer, msg)]
      | _ => []
  | _ => []

def Session.decoded (st : Session θ) : Event θ → List (θ × Str)
  | .onRead false th => [(th, (st.info th).buffer)]
  | _ => []

def withPort (host : Str) (port : Nat) : Str := host ++ ':' :: (toString port).toList

namespace Vendor

/-- The operation that a handler begins, or the end of the session. -/
def next (x : Vendor θ) (ec : Bool) (stage : Stage) (op : Op θ) : Vendor θ :=
  if ec then { x with stage := .failed } else { x with stage := stage, begun := x.begun ++ [op] }

/-- `host_ += ':' + std::to_string(ep.port())`. -/
def setPort (x : Vendor θ) (port : Nat) : Vendor θ := { x with host := withPort x.host port }

/-- The threads that have issued the reads, in order. -/
def reads (x : Vendor θ) : List θ := x.begun.filterMap Op.reader

/-- A handler of the session has been run. -/
def after (x : Vendor θ) (e : Event θ) (session : Session θ) : Vendor θ :=
  { x with
    session := session
    begun := x.begun ++ e.reads.map .read
    arrivals := x.arrivals ++ x.session.arrival e
    texts := x.texts ++ x.session.decoded e }

@[simp]
theorem reads_after (x : Vendor θ) (e : Event θ) (session : Session θ) :
    (x.after e session).reads = x.reads ++ e.reads := by
  simp [reads, after, Function.comp_def, Op.reader]

@[simp]
theorem session_after (x : Vendor θ) (e : Event θ) (session : Session θ) :
    (x.after e session).session = session := rfl

@[simp]
theorem arrivals_after (x : Vendor θ) (e : Event θ) (session : Session θ) :
    (x.after e session).arrivals = x.arrivals ++ x.session.arrival e := rfl

@[simp]
theorem texts_after (x : Vendor θ) (e : Event θ) (session : Session θ) :
    (x.after e session).texts = x.texts ++ x.session.decoded e := rfl

variable [DecidableEq θ]

/-- `session_prt->run(…)` on the thread that constructed the session. -/
def start (main : θ) (host port text endpoint : Str) : Vendor θ :=
  ⟨host, text, endpoint, [main], .resolving, .start [main], false, [.resolve host port], [], []⟩

end Vendor

section Steps

variable [DecidableEq θ] (parseJson : JsonParser)

/-- Once stopped, no handler runs. -/
def vendorStep (x : Vendor θ) (a : Action θ) : Option (Vendor θ) :=
  if x.stopped then none
  else
    match a with
    | .register th =>
        if th ∈ x.threads then none
        else some { x with threads := x.threads ++ [th], session := x.session.registerThread th }
    | .onResolve ec =>
        if x.stage = .resolving then some (x.next ec .connecting .connect) else none
    | .onConnect ec sni port =>
        if x.stage = .connecting then
          if ec || !sni then some { x with stage := .failed }
          else some ((x.setPort port).next false .sslHandshaking .sslHandshake)
        else none
    | .onSslHandshake ec =>
        if x.stage = .sslHandshaking then
          some (x.next ec .handshaking (.handshake x.host x.endpoint))
        else none
    | .onHandshake ec =>
        if x.stage = .handshaking then some (x.next ec .established (.write x.text)) else none
    | .session e =>
        if x.stage = .established ∧ ∀ th ∈ e.thread, th ∈ x.threads then
          (step parseJson x.session e).map (x.after e)
        else none
    | .signal => some { x with stopped := true }

/-! ## What a handler does to the session -/

omit [DecidableEq θ] in
/-- A handler that is given an error reads nothing. -/
theorem effects_of_fails {e : Event θ} (h : e.fails = true) (st : Session θ) :
    e.reads = [] ∧ st.arrival e = [] ∧ st.decoded e = [] := by
  cases e with
  | onWrite ec th =>
      cases h
      exact ⟨rfl, rfl, rfl⟩
  | arrive msg => cases h
  | onRead ec th =>
      cases h
      exact ⟨rfl, rfl, rfl⟩

variable {parseJson}

/-- A message is in the buffer its read was given. -/
def Session.received (st : Session θ) (issuer : θ) (msg : Str) : Session θ :=
  { threadsInfo := Function.update st.threadsInfo issuer
      (some { st.info issuer with buffer := (st.info issuer).buffer ++ msg })
    phase := .arrived issuer
    published := st.published }

/-- An `on_read` publishes what it finds, and clears the buffer for the read it
issues. -/
def Session.turnedOver (st : Session θ) (th : θ) (published : List (Str × Str)) : Session θ :=
  { threadsInfo := Function.update st.threadsInfo th (some { st.info th with buffer := [] })
    phase := .reading th
    published := st.published ++ published }

inductive SessionMove (parseJson : JsonParser) (st : Session θ) : Event θ → Session θ → Prop where
  | written (th) (hphase : st.phase = .writing) :
      SessionMove parseJson st (.onWrite false th) (st.asyncRead th)
  | arrived (msg issuer) (hphase : st.phase = .reading issuer) :
      SessionMove parseJson st (.arrive msg) (st.received issuer msg)
  | read (th issuer) (hphase : st.phase = .arrived issuer) :
      SessionMove parseJson st (.onRead false th)
        (st.turnedOver th (publication parseJson (st.info th).buffer).toList)
  | failed (e) (hphase : st.phase ≠ .stopped) (hfails : e.fails = true) :
      SessionMove parseJson st e { st with phase := .stopped }

omit [DecidableEq θ] in
theorem publish_spec {st st' : Session θ} {th : θ} {message : Str}
    (h : st.publish parseJson th message = some st') :
    st' = { st with published := st.published ++ (publication parseJson message).toList } := by
  unfold Session.publish at h
  unfold publication
  cases hc : channel parseJson message with
  | error e =>
      simp only [hc, Option.some.injEq] at h
      simp [← h]
  | ok s =>
      simp only [hc, Option.ite_none_right_eq_some, Option.some.injEq] at h
      simp [← h.2]

variable (parseJson) in
omit [DecidableEq θ] in
theorem publish_isSome {st : Session θ} {th : θ} (hredis : (st.info th).redis = true)
    (message : Str) : ∃ st', st.publish parseJson th message = some st' := by
  unfold Session.publish
  cases channel parseJson message with
  | error e => exact ⟨st, rfl⟩
  | ok s => exact ⟨_, if_pos hredis⟩

theorem asyncRead_clearBuffer (st : Session θ) (th : θ) (published : List (Str × Str)) :
    (({ st with published := st.published ++ published }).clearBuffer th).asyncRead th =
      st.turnedOver th published := by
  rw [Session.asyncRead, Session.clearBuffer, info_setInfo_self]
  simp [Session.setInfo, Session.turnedOver, Session.info]

theorem sessionMove_of_step {st st' : Session θ} {e : Event θ}
    (h : step parseJson st e = some st') : SessionMove parseJson st e st' := by
  cases e with
  | onWrite ec th =>
      cases hphase : st.phase with
      | writing =>
          simp only [step, hphase, Option.some.injEq, Session.onWrite] at h
          cases ec with
          | false => exact h ▸ .written th hphase
          | true => exact h ▸ .failed _ (by simp [hphase]) rfl
      | _ => simp [step, hphase] at h
  | arrive msg =>
      cases hphase : st.phase with
      | reading issuer =>
          simp only [step, hphase, Option.some.injEq] at h
          exact h ▸ .arrived msg issuer hphase
      | _ => simp [step, hphase] at h
  | onRead ec th =>
      cases ec with
      | true =>
          have hstopped : st.phase ≠ .stopped ∧ st' = { st with phase := .stopped } := by
            cases hphase : st.phase <;> simp_all [step, Session.onRead]
          exact hstopped.2 ▸ .failed _ hstopped.1 rfl
      | false =>
          cases hphase : st.phase with
          | arrived issuer =>
              simp only [step, hphase, Session.onRead, Bool.false_eq_true, if_false,
                Option.bind_eq_bind, Option.bind_eq_some_iff, Option.pure_def,
                Option.some.injEq] at h
              obtain ⟨st₁, hpublish, rfl⟩ := h
              rw [publish_spec hpublish, asyncRead_clearBuffer]
              exact .read th issuer hphase
          | _ => simp [step, hphase] at h

inductive VendorMove (parseJson : JsonParser) (x : Vendor θ) : Action θ → Vendor θ → Prop where
  | register (th) (hth : th ∉ x.threads) :
      VendorMove parseJson x (.register th)
        { x with threads := x.threads ++ [th], session := x.session.registerThread th }
  | onResolve (ec) (hstage : x.stage = .resolving) :
      VendorMove parseJson x (.onResolve ec) (x.next ec .connecting .connect)
  | onConnect (port) (hstage : x.stage = .connecting) :
      VendorMove parseJson x (.onConnect false true port)
        ((x.setPort port).next false .sslHandshaking .sslHandshake)
  | unconnected (ec sni port) (hstage : x.stage = .connecting) (hfails : (ec || !sni) = true) :
      VendorMove parseJson x (.onConnect ec sni port) { x with stage := .failed }
  | onSslHandshake (ec) (hstage : x.stage = .sslHandshaking) :
      VendorMove parseJson x (.onSslHandshake ec)
        (x.next ec .handshaking (.handshake x.host x.endpoint))
  | onHandshake (ec) (hstage : x.stage = .handshaking) :
      VendorMove parseJson x (.onHandshake ec) (x.next ec .established (.write x.text))
  | session (e st) (hstage : x.stage = .established) (hthread : ∀ th ∈ e.thread, th ∈ x.threads)
      (hstep : step parseJson x.session e = some st) :
      VendorMove parseJson x (.session e) (x.after e st)
  | signal : VendorMove parseJson x .signal { x with stopped := true }

theorem vendorMove_of_step {x x' : Vendor θ} {a : Action θ}
    (h : vendorStep parseJson x a = some x') : VendorMove parseJson x a x' := by
  unfold vendorStep at h
  rw [Option.ite_none_left_eq_some] at h
  obtain ⟨-, h⟩ := h
  cases a with
  | register th =>
      simp only [Option.ite_none_left_eq_some, Option.some.injEq] at h
      obtain ⟨hth, rfl⟩ := h
      exact .register th hth
  | onResolve ec =>
      simp only [Option.ite_none_right_eq_some, Option.some.injEq] at h
      obtain ⟨hstage, rfl⟩ := h
      exact .onResolve ec hstage
  | onConnect ec sni port =>
      simp only [Option.ite_none_right_eq_some] at h
      obtain ⟨hstage, h⟩ := h
      split at h
      · next hfails =>
          cases h
          exact .unconnected ec sni port hstage hfails
      · next hsucceeds =>
          cases h
          cases ec <;> cases sni <;> first | exact absurd rfl hsucceeds | skip
          exact .onConnect port hstage
  | onSslHandshake ec =>
      simp only [Option.ite_none_right_eq_some, Option.some.injEq] at h
      obtain ⟨hstage, rfl⟩ := h
      exact .onSslHandshake ec hstage
  | onHandshake ec =>
      simp only [Option.ite_none_right_eq_some, Option.some.injEq] at h
      obtain ⟨hstage, rfl⟩ := h
      exact .onHandshake ec hstage
  | session e =>
      simp only [Option.ite_none_right_eq_some] at h
      obtain ⟨⟨hstage, hthread⟩, h⟩ := h
      obtain ⟨st, hst, rfl⟩ := Option.map_eq_some_iff.mp h
      exact .session e st hstage hthread hst
  | signal =>
      cases h
      exact .signal

/-! ## The threads' entries -/

theorem registerThread_spec {st : Session θ} {th : θ} (h : st.threadsInfo th = none) :
    (st.registerThread th).threadsInfo =
        Function.update st.threadsInfo th (some ⟨[], true⟩) ∧
      (st.registerThread th).phase = st.phase ∧
      (st.registerThread th).published = st.published := by
  rw [Session.registerThread, h]
  exact ⟨rfl, rfl, rfl⟩

/-- Every thread that has been started has its connection, no other has an
entry, and only these issue reads. -/
structure Registered (threads : List θ) (st : Session θ) : Prop where
  known : ∀ th ∈ threads, ∃ buffer, st.threadsInfo th = some ⟨buffer, true⟩
  unknown : ∀ th, th ∉ threads → st.threadsInfo th = none
  issuer : ∀ th, st.phase = .reading th → th ∈ threads

namespace Registered

variable {threads : List θ} {st st' : Session θ}

omit [DecidableEq θ] in
theorem redis (h : Registered threads st) {th : θ} (hth : th ∈ threads) :
    (st.info th).redis = true := by
  obtain ⟨buffer, hinfo⟩ := h.known th hth
  simp [Session.info, hinfo]

/-- An entry changes its buffer, and the thread that has it is started. -/
theorem update (h : Registered threads st) {th : θ} (hth : th ∈ threads) (buffer : Str)
    (hinfo : st'.threadsInfo =
      Function.update st.threadsInfo th (some ⟨buffer, (st.info th).redis⟩))
    (hissuer : ∀ th', st'.phase = .reading th' → th' ∈ threads) : Registered threads st' := by
  refine ⟨?_, ?_, hissuer⟩
  · intro th' hth'
    rw [hinfo]
    by_cases heq : th' = th
    · exact ⟨buffer, by rw [heq, Function.update_self, h.redis hth]⟩
    · rw [Function.update_of_ne heq]
      exact h.known th' hth'
  · intro th' hth'
    have hne : th' ≠ th := fun heq => hth' (heq ▸ hth)
    rw [hinfo, Function.update_of_ne hne]
    exact h.unknown th' hth'

theorem step {e : Event θ} (h : Registered threads st) (hthread : ∀ th ∈ e.thread, th ∈ threads)
    (hstep : WsVendor.step parseJson st e = some st') : Registered threads st' := by
  cases sessionMove_of_step hstep with
  | written th hphase =>
      have hth : th ∈ threads := hthread th rfl
      refine h.update hth (st.info th).buffer rfl ?_
      rintro th' ⟨⟩
      exact hth
  | arrived msg issuer hphase =>
      exact h.update (h.issuer issuer hphase) _ rfl nofun
  | read th issuer hphase =>
      have hth : th ∈ threads := hthread th rfl
      refine h.update hth [] rfl ?_
      rintro th' ⟨⟩
      exact hth
  | failed e hphase hfails => exact ⟨h.known, h.unknown, nofun⟩

theorem register (h : Registered threads st) {th : θ} (hth : th ∉ threads) :
    Registered (threads ++ [th]) (st.registerThread th) := by
  obtain ⟨hinfo, hphase, -⟩ := registerThread_spec (h.unknown th hth)
  refine ⟨?_, ?_, ?_⟩
  · intro th' hth'
    rw [hinfo]
    by_cases heq : th' = th
    · exact ⟨[], by rw [heq, Function.update_self]⟩
    · rw [Function.update_of_ne heq]
      exact h.known th' ((List.mem_append.mp hth').resolve_right fun hmem =>
        heq (List.mem_singleton.mp hmem))
  · intro th' hth'
    have hne : th' ≠ th := fun heq =>
      hth' (List.mem_append_right _ (heq ▸ List.mem_singleton_self th))
    rw [hinfo, Function.update_of_ne hne]
    exact h.unknown th' fun hmem => hth' (List.mem_append_left _ hmem)
  · intro th' hreading
    exact List.mem_append_left _ (h.issuer th' (hphase ▸ hreading))

theorem start (main : θ) : Registered [main] (.start [main]) := by
  obtain ⟨hphase, -, hinfo⟩ := start_spec [main]
  refine ⟨?_, ?_, ?_⟩
  · intro th hth
    exact ⟨[], (hinfo th).trans (if_pos hth)⟩
  · intro th hth
    exact (hinfo th).trans (if_neg hth)
  · intro th hreading
    rw [hphase] at hreading
    cases hreading

end Registered

/-! ## What a thread has decoded, and what it holds -/

/-- The texts of one thread, in order. -/
def ofThread (l : List (θ × Str)) (th : θ) : List Str :=
  (l.filter fun e => e.1 = th).map Prod.snd

@[simp]
theorem ofThread_append (l l' : List (θ × Str)) (th : θ) :
    ofThread (l ++ l') th = ofThread l th ++ ofThread l' th := by
  simp [ofThread]

@[simp]
theorem ofThread_nil (th : θ) : ofThread [] th = [] := rfl

@[simp]
theorem ofThread_self (th : θ) (text : Str) : ofThread [(th, text)] th = [text] := by
  simp [ofThread]

theorem ofThread_of_ne {th th' : θ} (h : th' ≠ th) (text : Str) :
    ofThread [(th, text)] th' = [] := by
  simp [ofThread, h.symm]

theorem count_ofThread (l : List (θ × Str)) (th : θ) (text : Str) :
    (ofThread l th).count text = l.count (th, text) := by
  induction l with
  | nil => rfl
  | cons e l ih =>
      obtain ⟨th', text'⟩ := e
      rw [← List.singleton_append, ofThread_append, List.count_append, List.count_append, ih]
      by_cases hth : th = th'
      · subst hth
        simp [List.count_singleton]
      · have hne : ((th', text') == (th, text)) = false :=
          beq_false_of_ne fun heq => hth (congrArg Prod.fst heq).symm
        rw [ofThread_of_ne hth, List.count_nil, List.count_singleton, hne]
        rfl

/-- A thread that is not the first to issue a read begins with an empty
buffer. -/
def Vendor.blank (x : Vendor θ) (th : θ) : List Str :=
  if x.reads.head? = some th then [] else [[]]

/-- What has arrived for a thread has been decoded on it, but for one text: the
one in its buffer, or none while its read is outstanding. -/
def Vendor.Holds (x : Vendor θ) (th : θ) : Prop :=
  ∃ rest, ofThread x.texts th ++ rest = x.blank th ++ ofThread x.arrivals th ∧
    (rest = [] ∧ (x.session.info th).buffer = [] ∧
        (x.session.phase = .reading th ∨ x.session.phase = .stopped) ∨
      rest = [(x.session.info th).buffer] ∧ x.session.phase ≠ .reading th)

theorem blank_congr {x x' : Vendor θ} (h : x'.reads.head? = x.reads.head?) (th : θ) :
    x'.blank th = x.blank th := by
  rw [Vendor.blank, Vendor.blank, h]

/-- Only the first read decides. -/
theorem blank_after {x : Vendor θ} {e : Event θ} (h : x.reads ≠ [] ∨ e.reads = [])
    (session : Session θ) (th : θ) : (x.after e session).blank th = x.blank th := by
  refine blank_congr ?_ th
  rw [Vendor.reads_after]
  rcases h with h | h
  · exact List.head?_append_of_ne_nil _ h
  · rw [h, List.append_nil]

theorem info_received_self (st : Session θ) (issuer : θ) (msg : Str) :
    ((st.received issuer msg).info issuer).buffer = (st.info issuer).buffer ++ msg := by
  simp [Session.received, Session.info]

theorem info_received_of_ne (st : Session θ) {issuer th : θ} (h : th ≠ issuer) (msg : Str) :
    (st.received issuer msg).info th = st.info th := by
  simp [Session.received, Session.info, Function.update_of_ne h]

omit [DecidableEq θ] in
theorem arrival_of_reading {st : Session θ} {issuer : θ} (h : st.phase = .reading issuer)
    (msg : Str) : st.arrival (.arrive msg) = [(issuer, msg)] := by
  simp only [Session.arrival, h]

theorem info_asyncRead (st : Session θ) (th th' : θ) :
    (st.asyncRead th).info th' = st.info th' := by
  have hinfo : (st.asyncRead th).info th' = (st.setInfo th (st.info th)).info th' :=
    info_congr rfl th'
  rw [hinfo]
  by_cases heq : th' = th
  · rw [heq, info_setInfo_self]
  · exact info_setInfo_of_ne st heq _

variable (parseJson) in
structure Sound (x : Vendor θ) : Prop where
  registered : Registered x.threads x.session
  unopened : x.stage ≠ .established → x.session.phase = .writing
  fresh : x.session.phase = .writing → x.reads = [] ∧ x.arrivals = [] ∧ x.texts = []
  reading : x.reads = [] → x.session.phase = .writing ∨ x.session.phase = .stopped
  holds : ∀ th, x.Holds th
  last : ∀ issuer, x.session.phase = .arrived issuer →
    x.arrivals.getLast? = some (issuer, (x.session.info issuer).buffer)
  published : x.session.published = x.texts.filterMap fun e => publication parseJson e.2

namespace Vendor.Holds

variable {x : Vendor θ} {th : θ}

/-- Before the first read every buffer is empty. -/
theorem buffer_of_fresh (h : x.Holds th) (hreads : x.reads = []) (harrivals : x.arrivals = []) (htexts : x.texts = []) :
    (x.session.info th).buffer = [] := by
  obtain ⟨rest, hrest, ⟨-, hbuffer, -⟩ | ⟨hheld, -⟩⟩ := h
  · exact hbuffer
  · simp [Vendor.blank, hreads, harrivals, htexts, hheld] at hrest
    exact hrest

/-- While its read is outstanding a thread holds nothing. -/
theorem of_reading (h : x.Holds th) (hphase : x.session.phase = .reading th) :
    ofThread x.texts th = x.blank th ++ ofThread x.arrivals th ∧
      (x.session.info th).buffer = [] := by
  obtain ⟨rest, hrest, ⟨rfl, hbuffer, -⟩ | ⟨-, hne⟩⟩ := h
  · rw [List.append_nil] at hrest
    exact ⟨hrest, hbuffer⟩
  · exact absurd hphase hne

/-- A thread whose read is not outstanding holds what is in its buffer. -/
theorem of_other (h : x.Holds th) (hreading : x.session.phase ≠ .reading th)
    (hstopped : x.session.phase ≠ .stopped) :
    ofThread x.texts th ++ [(x.session.info th).buffer] =
      x.blank th ++ ofThread x.arrivals th := by
  obtain ⟨rest, hrest, ⟨-, -, hphase⟩ | ⟨rfl, -⟩⟩ := h
  · rcases hphase with hphase | hphase
    · exact absurd hphase hreading
    · exact absurd hphase hstopped
  · exact hrest

end Vendor.Holds

namespace Sound

variable {x : Vendor θ}

theorem reads_ne_nil (h : Sound parseJson x) (hwriting : x.session.phase ≠ .writing)
    (hstopped : x.session.phase ≠ .stopped) : x.reads ≠ [] := by
  intro hnil
  rcases h.reading hnil with hphase | hphase
  · exact hwriting hphase
  · exact hstopped hphase

/-- The greeting has been written, and the first read is issued. -/
theorem holds_written (h : Sound parseJson x) (hphase : x.session.phase = .writing) (th th' : θ) :
    (x.after (.onWrite false th) (x.session.asyncRead th)).Holds th' := by
  obtain ⟨hreads, harrivals, htexts⟩ := h.fresh hphase
  have hbuffer := (h.holds th').buffer_of_fresh hreads harrivals htexts
  have hbuffer' : ((x.session.asyncRead th).info th').buffer = [] := by
    rw [info_asyncRead, hbuffer]
  have hreads' : (x.after (.onWrite false th) (x.session.asyncRead th)).reads = [th] := by
    rw [Vendor.reads_after, hreads]
    rfl
  by_cases heq : th' = th
  · refine ⟨[], ?_, .inl ⟨rfl, hbuffer', .inl (heq ▸ rfl)⟩⟩
    simp [Vendor.blank, hreads', heq, htexts, harrivals, Session.decoded, Session.arrival]
  · refine ⟨[[]], ?_, .inr ⟨congrArg (fun b => [b]) hbuffer'.symm, ?_⟩⟩
    · simp [Vendor.blank, hreads', Ne.symm heq, htexts, harrivals, Session.decoded,
        Session.arrival]
    · rintro ⟨⟩
      exact heq rfl

/-- A message is held by the thread that has issued the read. -/
theorem holds_arrived (h : Sound parseJson x) {issuer : θ}
    (hphase : x.session.phase = .reading issuer) (msg : Str) (th : θ) :
    (x.after (.arrive msg) (x.session.received issuer msg)).Holds th := by
  have hblank : (x.after (.arrive msg) (x.session.received issuer msg)).blank th = x.blank th :=
    blank_after (.inr rfl) _ th
  have harrival := arrival_of_reading hphase msg
  by_cases heq : th = issuer
  · subst heq
    obtain ⟨hrest, hbuffer⟩ := (h.holds th).of_reading hphase
    refine ⟨[msg], ?_, .inr ⟨?_, nofun⟩⟩
    · rw [hblank]
      simp [harrival, Session.decoded, hrest]
    · rw [Vendor.session_after, info_received_self, hbuffer, List.nil_append]
  · have hne : x.session.phase ≠ .reading th := by
      rw [hphase]
      rintro ⟨⟩
      exact heq rfl
    have hrest := (h.holds th).of_other hne (by rw [hphase]; nofun)
    refine ⟨[(x.session.info th).buffer], ?_, .inr ⟨?_, nofun⟩⟩
    · rw [hblank]
      simp [harrival, Session.decoded, hrest, ofThread_of_ne heq]
    · rw [Vendor.session_after, info_received_of_ne _ heq]

/-- A completion takes what its thread holds. -/
theorem holds_read (h : Sound parseJson x) {issuer : θ}
    (hphase : x.session.phase = .arrived issuer) (th : θ) (published : List (Str × Str)) (th' : θ) :
    (x.after (.onRead false th) (x.session.turnedOver th published)).Holds th' := by
  have hreads : x.reads ≠ [] := h.reads_ne_nil (by rw [hphase]; nofun) (by rw [hphase]; nofun)
  have hblank : (x.after (.onRead false th) (x.session.turnedOver th published)).blank th' =
      x.blank th' := blank_after (.inl hreads) _ th'
  have hrest := (h.holds th').of_other (by rw [hphase]; nofun) (by rw [hphase]; nofun)
  by_cases heq : th' = th
  · subst heq
    refine ⟨[], ?_, .inl ⟨rfl, ?_, .inl rfl⟩⟩
    · rw [hblank]
      simp [Session.arrival, Session.decoded, hrest]
    · simp [Session.turnedOver, Session.info]
  · refine ⟨[(x.session.info th').buffer], ?_, .inr ⟨?_, ?_⟩⟩
    · rw [hblank]
      simp [Session.arrival, Session.decoded, hrest, ofThread_of_ne heq]
    · simp [Session.turnedOver, Session.info, Function.update_of_ne heq]
    · rintro ⟨⟩
      exact heq rfl

/-- An error leaves every buffer as it is. -/
theorem holds_failed (h : Sound parseJson x) {e : Event θ} (hfails : e.fails = true) (th : θ) :
    (x.after e { x.session with phase := .stopped }).Holds th := by
  obtain ⟨hreads, harrival, hdecoded⟩ := effects_of_fails hfails x.session
  obtain ⟨rest, hrest, hheld⟩ := h.holds th
  refine ⟨rest, ?_, ?_⟩
  · rw [blank_after (.inr hreads)]
    simpa [harrival, hdecoded] using hrest
  · rcases hheld with ⟨hnil, hbuffer, -⟩ | ⟨hone, -⟩
    · exact .inl ⟨hnil, hbuffer, .inr rfl⟩
    · exact .inr ⟨hone, nofun⟩

/-- What an event leaves of the invariant, with what it leaves each thread. -/
theorem after (h : Sound parseJson x) (hstage : x.stage = .established) {e : Event θ}
    (hthread : ∀ th ∈ e.thread, th ∈ x.threads) {st : Session θ}
    (hstep : step parseJson x.session e = some st) : Sound parseJson (x.after e st) := by
  have hregistered : Registered x.threads st := h.registered.step hthread hstep
  have hestablished : (x.after e st).stage ≠ .established → st.phase = .writing :=
    fun hne => absurd hstage hne
  cases sessionMove_of_step hstep with
  | written th hphase =>
      refine ⟨hregistered, hestablished, nofun, ?_, h.holds_written hphase th, nofun, ?_⟩
      · rw [Vendor.reads_after]
        exact fun hnil => absurd (List.append_eq_nil_iff.mp hnil).2 (List.cons_ne_nil th [])
      · rw [Vendor.texts_after, Session.decoded, List.append_nil]
        · exact h.published
        · nofun
  | arrived msg issuer hphase =>
      obtain ⟨-, hbuffer⟩ := (h.holds issuer).of_reading hphase
      refine ⟨hregistered, hestablished, nofun, ?_, h.holds_arrived hphase msg, ?_, ?_⟩
      · rw [Vendor.reads_after, Event.reads, List.append_nil]
        exact fun hnil =>
          absurd hnil (h.reads_ne_nil (by rw [hphase]; nofun) (by rw [hphase]; nofun))
      · rintro issuer' ⟨⟩
        rw [Vendor.arrivals_after, arrival_of_reading hphase, List.getLast?_concat,
          Vendor.session_after, info_received_self, hbuffer, List.nil_append]
      · rw [Vendor.texts_after, Session.decoded, List.append_nil]
        · exact h.published
        · nofun
  | read th issuer hphase =>
      refine ⟨hregistered, hestablished, nofun, ?_, h.holds_read hphase th _, nofun, ?_⟩
      · rw [Vendor.reads_after]
        exact fun hnil => absurd (List.append_eq_nil_iff.mp hnil).2 (List.cons_ne_nil th [])
      · rw [Vendor.texts_after, List.filterMap_append, ← h.published, Session.decoded]
        refine congrArg (x.session.published ++ ·) ?_
        cases hp : publication parseJson (x.session.info th).buffer <;> simp [hp]
  | failed e hphase hfails =>
      obtain ⟨-, -, hdecoded⟩ := effects_of_fails hfails x.session
      refine ⟨hregistered, hestablished, nofun, fun _ => .inr rfl, h.holds_failed hfails, nofun, ?_⟩
      rw [Vendor.texts_after, hdecoded, List.append_nil]
      exact h.published

/-- What touches no buffer. -/
theorem frame (h : Sound parseJson x) {x' : Vendor θ}
    (hregistered : Registered x'.threads x'.session)
    (hphase : x'.session.phase = x.session.phase)
    (hbuffer : ∀ th, (x'.session.info th).buffer = (x.session.info th).buffer)
    (hpublished : x'.session.published = x.session.published) (hreads : x'.reads = x.reads)
    (harrivals : x'.arrivals = x.arrivals) (htexts : x'.texts = x.texts)
    (hstage : x'.stage ≠ .established → x.session.phase = .writing) : Sound parseJson x' := by
  refine ⟨hregistered, ?_, ?_, ?_, ?_, ?_, ?_⟩
  · rw [hphase]
    exact hstage
  · rw [hphase, hreads, harrivals, htexts]
    exact h.fresh
  · rw [hphase, hreads]
    exact h.reading
  · intro th
    rw [Vendor.Holds, hphase, hbuffer, harrivals, htexts,
      blank_congr (congrArg List.head? hreads)]
    exact h.holds th
  · intro issuer
    rw [hphase, hbuffer, harrivals]
    exact h.last issuer
  · rw [hpublished, htexts]
    exact h.published

/-- A stage of the connection is over, or has failed. -/
theorem next (h : Sound parseJson x) (hstage : x.stage ≠ .established) (ec : Bool) (stage : Stage)
    {op : Op θ} (hop : op.reader = none) : Sound parseJson (x.next ec stage op) := by
  have hphase := h.unopened hstage
  cases ec with
  | true =>
      exact h.frame h.registered rfl (fun _ => rfl) rfl rfl rfl rfl fun _ => hphase
  | false =>
      refine h.frame h.registered rfl (fun _ => rfl) rfl ?_ rfl rfl fun _ => hphase
      show (x.begun ++ [op]).filterMap Op.reader = x.begun.filterMap Op.reader
      rw [List.filterMap_append, List.filterMap_cons_none hop, List.filterMap_nil, List.append_nil]

theorem register (h : Sound parseJson x) {th : θ} (hth : th ∉ x.threads) :
    Sound parseJson { x with
      threads := x.threads ++ [th], session := x.session.registerThread th } := by
  have hnone := h.registered.unknown th hth
  obtain ⟨hinfo, hphase, hpublished⟩ := registerThread_spec hnone
  refine h.frame (h.registered.register hth) hphase ?_ hpublished rfl rfl rfl h.unopened
  intro th'
  show ((x.session.registerThread th).info th').buffer = _
  rw [Session.info, hinfo]
  by_cases heq : th' = th
  · subst heq
    simp [Session.info, hnone, ThreadInfo.default]
  · rw [Function.update_of_ne heq, Session.info]

theorem step {x' : Vendor θ} {a : Action θ} (h : Sound parseJson x)
    (hstep : vendorStep parseJson x a = some x') : Sound parseJson x' := by
  cases vendorMove_of_step hstep with
  | register th hth => exact h.register hth
  | onResolve ec hstage => exact h.next (by rw [hstage]; nofun) ec _ rfl
  | onConnect port hstage =>
      have hne : x.stage ≠ .established := by rw [hstage]; nofun
      have hport : Sound parseJson (x.setPort port) :=
        h.frame h.registered rfl (fun _ => rfl) rfl rfl rfl rfl fun _ => h.unopened hne
      exact hport.next hne false _ rfl
  | unconnected ec sni port hstage hfails =>
      have hne : x.stage ≠ .established := by rw [hstage]; nofun
      exact h.frame h.registered rfl (fun _ => rfl) rfl rfl rfl rfl fun _ => h.unopened hne
  | onSslHandshake ec hstage => exact h.next (by rw [hstage]; nofun) ec _ rfl
  | onHandshake ec hstage => exact h.next (by rw [hstage]; nofun) ec _ rfl
  | session e st hstage hthread hst => exact h.after hstage hthread hst
  | signal => exact h.frame h.registered rfl (fun _ => rfl) rfl rfl rfl rfl h.unopened

theorem start (main : θ) (host port text endpoint : Str) :
    Sound parseJson (.start main host port text endpoint) := by
  obtain ⟨hphase, hpublished, hinfo⟩ := start_spec [main]
  refine ⟨Registered.start main, fun _ => hphase, fun _ => ⟨rfl, rfl, rfl⟩, fun _ => .inl hphase,
    ?_, ?_, hpublished⟩
  · intro th
    refine ⟨[[]], rfl, .inr ⟨?_, ?_⟩⟩
    · show [[]] = [((Session.start [main]).info th).buffer]
      rw [Session.info, hinfo]
      split <;> rfl
    · show (Session.start [main]).phase ≠ _
      simp [hphase]
  · intro issuer harrived
    have hw : (Session.start [main]).phase = .arrived issuer := harrived
    rw [hphase] at hw
    cases hw

theorem run {main : θ} {host port text endpoint : Str} {as : List (Action θ)}
    (hrun : Runs.run (vendorStep parseJson) (.start main host port text endpoint) as = some x) :
    Sound parseJson x :=
  Runs.run_preserves Sound.step (Sound.start main host port text endpoint) hrun

end Sound

/-! ## What is published -/

/-- An empty text apart, no thread decodes more than it has been sent. -/
theorem Vendor.Holds.count_le {x : Vendor θ} {th : θ} (h : x.Holds th) {text : Str}
    (hne : text ≠ []) : x.texts.count (th, text) ≤ x.arrivals.count (th, text) := by
  obtain ⟨rest, hrest, -⟩ := h
  have hcount := congrArg (List.count text) hrest
  have hblank : (x.blank th).count text = 0 := by
    rw [Vendor.blank]
    split
    · rfl
    · exact List.count_eq_zero.mpr fun hmem => hne (List.mem_singleton.mp hmem)
  rw [List.count_append, List.count_append, count_ofThread, count_ofThread, hblank] at hcount
  omega

/-- What is decoded, the empty texts apart, has arrived, each as often. -/
theorem Sound.decoded_subperm {x : Vendor θ} (h : Sound parseJson x) :
    (x.texts.filter fun e => e.2 ≠ []).Subperm x.arrivals := by
  rw [List.subperm_ext_iff]
  rintro ⟨th, text⟩ hmem
  have hne : text ≠ [] := of_decide_eq_true (List.mem_filter.mp hmem).2
  exact (List.filter_sublist.count_le _).trans ((h.holds th).count_le hne)

omit [DecidableEq θ] in
theorem subperm_filterMap {α β : Type} {l l' : List α} (h : l.Subperm l') (f : α → Option β) :
    (l.filterMap f).Subperm (l'.filterMap f) := by
  have hle := Multiset.filterMap_le_filterMap f (Multiset.coe_le.mpr h)
  rwa [Multiset.filterMap_coe, Multiset.filterMap_coe, Multiset.coe_le] at hle

omit [DecidableEq θ] in
/-- An empty text asks for nothing. -/
theorem filterMap_publication (hempty : ∃ e, parseJson [] = .error e) (l : List (θ × Str)) :
    (l.filter fun e => e.2 ≠ []).filterMap (fun e => publication parseJson e.2) =
      l.filterMap fun e => publication parseJson e.2 := by
  obtain ⟨error, herror⟩ := hempty
  have hnone : publication parseJson [] = none := by
    rw [publication, channel, herror]
    rfl
  rw [List.filterMap_filter]
  refine congrArg (List.filterMap · l) (funext fun e => ?_)
  by_cases hne : e.2 = []
  · rw [hne, hnone]
    rfl
  · rw [if_pos (decide_eq_true hne)]

/-- The completion of an arrived message can run on every thread. -/
theorem Sound.onRead_enabled {x : Vendor θ} (h : Sound parseJson x) {issuer : θ}
    (hphase : x.session.phase = .arrived issuer) (hstopped : x.stopped = false) {th : θ}
    (hth : th ∈ x.threads) (ec : Bool) :
    ∃ x', vendorStep parseJson x (.session (.onRead ec th)) = some x' := by
  have hstage : x.stage = .established := by
    by_contra hne
    rw [h.unopened hne] at hphase
    cases hphase
  obtain ⟨st, hst⟩ : ∃ st, WsVendor.step parseJson x.session (.onRead ec th) = some st := by
    simp only [WsVendor.step, hphase]
    cases ec with
    | true => exact ⟨_, rfl⟩
    | false =>
        obtain ⟨st, hst⟩ := publish_isSome parseJson (h.registered.redis hth)
          (x.session.info th).buffer
        exact ⟨_, by simp only [Session.onRead, hst]; rfl⟩
  have hthread : ∀ th' ∈ (Event.onRead ec th).thread, th' ∈ x.threads := by
    rintro th' ⟨⟩
    exact hth
  refine ⟨x.after (.onRead ec th) st, ?_⟩
  simp only [vendorStep, hstopped, Bool.false_eq_true, if_false]
  rw [if_pos ⟨hstage, hthread⟩, hst]
  rfl

/-- **In every run of `ws_vendor`, with threads started whenever and handlers
on any of them: on every thread, the texts decoded so far and the one that its
buffer may still hold are the messages of the reads it has issued, whole and in
order, after one empty text if it is not the thread that has issued the first
read; a message that has just arrived is whole in the buffer of the thread that
issued the read; what is published is what the decoded texts ask for, in that
order, and so no message is published twice, and nothing else; and no handler
meets a null connection.**  A thread is registered in one step: that two of them
may insert into the map at once, which nothing guards, is left out. -/
theorem vendor_publishes (hempty : ∃ e, parseJson [] = .error e) {main : θ}
    {host port text endpoint : Str} {as : List (Action θ)} {x : Vendor θ}
    (hrun : Runs.run (vendorStep parseJson) (.start main host port text endpoint) as = some x) :
    (∀ th, x.Holds th) ∧
      (∀ issuer, x.session.phase = .arrived issuer →
        x.arrivals.getLast? = some (issuer, (x.session.info issuer).buffer)) ∧
      x.session.published = x.texts.filterMap (fun e => publication parseJson e.2) ∧
      x.session.published.Subperm (x.arrivals.filterMap fun e => publication parseJson e.2) ∧
      (∀ issuer, x.session.phase = .arrived issuer → x.stopped = false →
        ∀ th ∈ x.threads, ∀ ec, ∃ x', vendorStep parseJson x (.session (.onRead ec th)) = some x') := by
  have h := Sound.run hrun
  refine ⟨h.holds, h.last, h.published, ?_, ?_⟩
  · rw [h.published, ← filterMap_publication hempty x.texts]
    exact subperm_filterMap h.decoded_subperm _
  · intro issuer hphase hstopped th hth ec
    exact h.onRead_enabled hphase hstopped hth ec

/-! ## From the first operation to the last -/

/-- What may have been begun in a stage, for the arguments of `run`, with the
host as it is then. -/
inductive Opening (host port text endpoint : Str) : Stage → Str → List (Op θ) → Prop where
  | resolving : Opening host port text endpoint .resolving host [.resolve host port]
  | connecting : Opening host port text endpoint .connecting host [.resolve host port, .connect]
  | sslHandshaking (p : Nat) :
      Opening host port text endpoint .sslHandshaking (withPort host p)
        [.resolve host port, .connect, .sslHandshake]
  | handshaking (p : Nat) :
      Opening host port text endpoint .handshaking (withPort host p)
        [.resolve host port, .connect, .sslHandshake, .handshake (withPort host p) endpoint]
  | established (p : Nat) (reads : List θ) :
      Opening host port text endpoint .established (withPort host p)
        ([.resolve host port, .connect, .sslHandshake, .handshake (withPort host p) endpoint,
          .write text] ++ reads.map .read)
  | failed {stage : Stage} {host' : Str} {ops : List (Op θ)}
      (h : Opening host port text endpoint stage host' ops) (hstage : stage ≠ .established) :
      Opening host port text endpoint .failed host' ops

/-- What `run` was given is still there, and the operations are in order. -/
structure Opened (host port text endpoint : Str) (x : Vendor θ) : Prop where
  message : x.text = text
  target : x.endpoint = endpoint
  opening : Opening host port text endpoint x.stage x.host x.begun

section Opened

variable {host port text endpoint host' : Str} {ops : List (Op θ)} {stage : Stage} {x : Vendor θ}

omit [DecidableEq θ] in
/-- The next stage, where there is one. -/
theorem Opening.next (h : Opening host port text endpoint stage host' ops) (p : Nat) :
    (stage = .resolving →
        Opening host port text endpoint .connecting host' (ops ++ [.connect])) ∧
      (stage = .connecting →
        Opening host port text endpoint .sslHandshaking (withPort host' p)
          (ops ++ [.sslHandshake])) ∧
      (stage = .sslHandshaking →
        Opening host port text endpoint .handshaking host'
          (ops ++ [.handshake host' endpoint])) ∧
      (stage = .handshaking →
        Opening host port text endpoint .established host' (ops ++ [.write text])) := by
  refine ⟨?_, ?_, ?_, ?_⟩
  · rintro rfl
    cases h
    exact .connecting
  · rintro rfl
    cases h
    exact .sslHandshaking p
  · rintro rfl
    cases h with
    | sslHandshaking q => exact .handshaking q
  · rintro rfl
    cases h with
    | handshaking q => exact .established q []

omit [DecidableEq θ] in
theorem Opening.read (h : Opening host port text endpoint .established host' ops)
    (reads : List θ) :
    Opening host port text endpoint .established host' (ops ++ reads.map .read) := by
  cases h with
  | established p earlier =>
      rw [List.append_assoc, ← List.map_append]
      exact .established p (earlier ++ reads)

omit [DecidableEq θ] in
theorem Opened.next (h : Opened host port text endpoint x) (hstage : x.stage ≠ .established)
    (ec : Bool) {op : Op θ}
    (hopening : Opening host port text endpoint stage x.host (x.begun ++ [op])) :
    Opened host port text endpoint (x.next ec stage op) := by
  cases ec with
  | true => exact ⟨h.message, h.target, .failed h.opening hstage⟩
  | false => exact ⟨h.message, h.target, hopening⟩

theorem Opened.step {x' : Vendor θ} {a : Action θ} (h : Opened host port text endpoint x)
    (hstep : vendorStep parseJson x a = some x') : Opened host port text endpoint x' := by
  have hopening := h.opening
  cases vendorMove_of_step hstep with
  | register th hth => exact ⟨h.message, h.target, hopening⟩
  | onResolve ec hstage =>
      exact h.next (by rw [hstage]; nofun) ec ((hopening.next 0).1 hstage)
  | onConnect p hstage => exact ⟨h.message, h.target, (hopening.next p).2.1 hstage⟩
  | unconnected ec sni p hstage hfails =>
      exact ⟨h.message, h.target, .failed hopening (by rw [hstage]; nofun)⟩
  | onSslHandshake ec hstage =>
      rw [h.target]
      exact h.next (by rw [hstage]; nofun) ec ((hopening.next 0).2.2.1 hstage)
  | onHandshake ec hstage =>
      rw [h.message]
      exact h.next (by rw [hstage]; nofun) ec ((hopening.next 0).2.2.2 hstage)
  | session e st hstage hthread hst =>
      refine ⟨h.message, h.target, ?_⟩
      show Opening host port text endpoint x.stage x.host (x.begun ++ e.reads.map .read)
      rw [hstage] at hopening ⊢
      exact hopening.read e.reads
  | signal => exact ⟨h.message, h.target, hopening⟩

end Opened

/-- The handler is given an error, or meets one. -/
def Action.fails : Action θ → Bool
  | .onResolve ec => ec
  | .onConnect ec sni _ => ec || !sni
  | .onSslHandshake ec => ec
  | .onHandshake ec => ec
  | .session e => e.fails
  | _ => false

end Steps

/-- The handlers of two threads: the quote whose read was issued on thread 1
waits there while thread 2 completes the read, and is published after the next
one has arrived. -/
def lateQuote : List (Action Nat) :=
  [.onResolve false, .register 2, .onConnect false true 443, .onSslHandshake false,
    .onHandshake false, .session (.onWrite false 1), .session (.arrive ethQuote),
    .session (.onRead false 2), .session (.arrive ethQuote), .session (.onRead false 1)]

theorem vendor_publishes_late_quote :
    ∃ x : Vendor Nat, Runs.run (vendorStep quotes) (.start 1 [] [] [] []) lateQuote = some x ∧
      x.texts = [(2, []), (1, ethQuote)] ∧ x.arrivals = [(1, ethQuote), (2, ethQuote)] ∧
      x.session.published = [("ETH-USD".toList, ethQuote)] ∧
      x.session.published.Subperm (x.arrivals.filterMap fun e => publication quotes e.2) ∧
      (x.session.info 2).buffer = ethQuote ∧ x.Holds 2 := by
  have hrun : Runs.run (vendorStep quotes) (.start 1 [] [] [] []) lateQuote = some _ := rfl
  obtain ⟨hholds, -, -, hsubperm, -⟩ := vendor_publishes ⟨.badText, rfl⟩ hrun
  exact ⟨_, hrun, rfl, rfl, rfl, hsubperm, rfl, hholds 2⟩

end SravzBackend.WsVendor
