/-
# `Services.DataProvider` — a fetch, and the promise someone waits for

`httpGet_` goes through seven steps, each of which may fail; `Connection` says
how they go.  Whoever asked waits for a promise, and `httpGet_` knows nothing
of it but a callback that sets it, which it calls at the end or not at all.

`promiseKept_iff`: the promise is kept exactly when every step before the
shutdown succeeds.  `httpGet_eq_exchange` takes the fetch to the view of it
that the requests for fundamentals have, and so to the coroutine.
-/
import SravzBackend.Services.Stores

namespace SravzBackend.Services.DataProvider

open BackgroundWorkers (AsyncOp)

def hostname : Str := "eodhd.com".toList

def port : Str := "443".toList

/-- The request that is written: a GET, with two fields. -/
structure Request where
  target : Str
  version : Nat
  host : Str
  userAgent : Str

structure Response where
  status : Nat
  body : Str

/-- How the steps of a fetch go: an error code, or nothing but what the next
steps need.  `ρ` is the type of the endpoints a name resolves to. -/
structure Connection (ε ρ : Type) where
  userAgent : Str
  setTlsextHostName : Str → Option ε
  resolve : Str → Str → Except ε ρ
  connect : ρ → Option ε
  handshake : Option ε
  write : Request → Option ε
  read : Request → Except ε Response
  shutdown : Option ε

variable {ε ρ α : Type} (n : Connection ε ρ)

def request (host target : Str) : Request where
  target := target
  version := 11
  host := host
  userAgent := n.userAgent

/-- `DataProvider::httpGet_`; `callback` changes the state of whoever asked.
What `shutdown` says is not looked at. -/
def httpGet_ (host port target : Str) (callback : Str → α → α) (caller : α) : α :=
  match n.setTlsextHostName host with
  | some _ => caller
  | none =>
      match n.resolve host port with
      | .error _ => caller
      | .ok results =>
          match n.connect results with
          | some _ => caller
          | none =>
              match n.handshake with
              | some _ => caller
              | none =>
                  match n.write (request n host target) with
                  | some _ => caller
                  | none =>
                      match n.read (request n host target) with
                      | .error _ => caller
                      | .ok res => callback res.body caller

/-! ## The promise -/

/-- A call that satisfies a promise. -/
inductive Completion where
  | value (response : Str)
  | exception (what : Str)
deriving DecidableEq

/-- What has been called on a promise, in order. -/
abbrev Completions := List Completion

def setValue (response : Str) (promise : Completions) : Completions :=
  promise ++ [.value response]

/-- What `future.get()` has to return or throw, once the fetch is over; with
nothing it waits for ever. -/
def futureGet (promise : Completions) : Option Completion := promise.head?

/-- `httpGet` of a host, a port and a target, with a promise.  Its `spawn` of
two arguments, whose result is dropped, is taken to launch the coroutine. -/
def httpGet (host port target : Str) (promise : Completions) : Completions :=
  httpGet_ n host port target setValue promise

/-- `httpGet` of a target, with a promise; launched in the same way. -/
def httpGetTarget (target : Str) (promise : Completions) : Completions :=
  httpGet_ n hostname port target setValue promise

/-! ## When it is kept -/

/-- Every step up to the read succeeds. -/
structure Reads (host port target : Str) (results : ρ) (res : Response) : Prop where
  sni : n.setTlsextHostName host = none
  resolved : n.resolve host port = .ok results
  connected : n.connect results = none
  handshaken : n.handshake = none
  written : n.write (request n host target) = none
  read : n.read (request n host target) = .ok res

theorem Reads.httpGet_eq {host port target : Str} {results : ρ} {res : Response}
    (h : Reads n host port target results res) (callback : Str → α → α) (caller : α) :
    httpGet_ n host port target callback caller = callback res.body caller := by
  simp only [httpGet_, h.sni, h.resolved, h.connected, h.handshaken, h.written, h.read]

/-- A fetch whose response is not read does not call back. -/
theorem httpGet_eq_of_not_reads {host port target : Str}
    (h : ∀ results res, ¬ Reads n host port target results res) (callback : Str → α → α)
    (caller : α) : httpGet_ n host port target callback caller = caller := by
  unfold httpGet_
  split
  · rfl
  · next hsni =>
      split
      · rfl
      · next results hresolved =>
          split
          · rfl
          · next hconnected =>
              split
              · rfl
              · next hhandshaken =>
                  split
                  · rfl
                  · next hwritten =>
                      split
                      · rfl
                      · next res hread =>
                          exact absurd ⟨hsni, hresolved, hconnected, hhandshaken, hwritten, hread⟩
                            (h results res)

/-- What must have been called on the promise when the fetch is over: one
call, with the body if it was read and an exception otherwise, so that
`future.get()` does not wait. -/
structure PromiseKept (host port target : Str) (promise : Completions) : Prop where
  value : ∀ results res, Reads n host port target results res → promise = [.value res.body]
  failure : (∀ results res, ¬ Reads n host port target results res) →
    ∃ what, promise = [.exception what]
  ready : futureGet promise ≠ none

theorem httpGet_kept_iff (host port target : Str) :
    PromiseKept n host port target (httpGet n host port target []) ↔
      ∃ results res, Reads n host port target results res := by
  constructor
  · intro h
    by_contra hno
    push Not at hno
    have hempty : httpGet n host port target [] = [] :=
      httpGet_eq_of_not_reads n hno setValue []
    exact h.ready (congrArg futureGet hempty)
  · rintro ⟨results, res, hreads⟩
    have hvalue : httpGet n host port target [] = [.value res.body] :=
      hreads.httpGet_eq n setValue []
    rw [hvalue]
    refine ⟨?_, fun hno => absurd hreads (hno results res), nofun⟩
    intro results' res' hreads'
    rw [← hvalue]
    exact hreads'.httpGet_eq n setValue []

/-- **Both overloads keep the promise exactly when the host name is set and
resolved, the connection made, its handshake done, the request written and
the response read**, whatever becomes of the shutdown. -/
theorem promiseKept_iff (host port' target : Str) :
    (PromiseKept n host port' target (httpGet n host port' target []) ↔
        ∃ results res, Reads n host port' target results res) ∧
      (PromiseKept n hostname port target (httpGetTarget n target []) ↔
        ∃ results res, Reads n hostname port target results res) :=
  ⟨httpGet_kept_iff n host port' target, httpGet_kept_iff n hostname port target⟩

/-- A connection that knows no name; nothing after that is reached. -/
def offline : Connection Str Unit where
  userAgent := "Boost.Beast/347".toList
  setTlsextHostName _ := none
  resolve _ _ := .error "Host not found (authoritative)".toList
  connect _ := none
  handshake := none
  write _ := none
  read _ := .ok ⟨200, []⟩
  shutdown := none

/-- Without a name server nothing is called on the promise, and whoever waits
for it waits for ever. -/
theorem offline_waits :
    httpGetTarget offline "/api/eod/AAAXC.US".toList [] = [] ∧
      futureGet (httpGetTarget offline "/api/eod/AAAXC.US".toList []) = none ∧
      ¬ PromiseKept offline hostname port "/api/eod/AAAXC.US".toList
        (httpGetTarget offline "/api/eod/AAAXC.US".toList []) :=
  ⟨rfl, rfl, fun h => h.ready rfl⟩

/-! ## The fetch as the requests see it -/

/-- The outcomes of the steps; those that are not reached are as good as any. -/
def exchange (host port target : Str) : Exchange where
  sniFails := (n.setTlsextHostName host).isSome
  fails
    | .resolve => !(n.resolve host port).isOk
    | .connect =>
        match n.resolve host port with
        | .ok results => (n.connect results).isSome
        | .error _ => false
    | .handshake => n.handshake.isSome
    | .write => (n.write (request n host target)).isSome
    | .read => !(n.read (request n host target)).isOk
    | .shutdown => n.shutdown.isSome
  status := (n.read (request n host target)).toOption.elim 0 Response.status
  body := (n.read (request n host target)).toOption.elim [] Response.body

/-- The callback is called with what the exchange answers, or not at all. -/
theorem httpGet_eq_exchange (host port target : Str) (callback : Str → α → α) (caller : α) :
    httpGet_ n host port target callback caller =
      (exchange n host port target).httpGet.elim caller fun response => callback response caller := by
  cases hsni : n.setTlsextHostName host with
  | some _ => simp [httpGet_, exchange, Exchange.httpGet, Exchange.response, hsni]
  | none =>
      cases hresolve : n.resolve host port with
      | error _ =>
          simp [httpGet_, exchange, Exchange.httpGet, Exchange.response, hsni, hresolve, Except.isOk,
            Except.toBool]
      | ok results =>
          cases hconnect : n.connect results <;> cases hhandshake : n.handshake <;>
            cases hwrite : n.write (request n host target) <;>
            cases hread : n.read (request n host target) <;>
            simp [httpGet_, exchange, Exchange.httpGet, Exchange.response, hsni, hresolve, hconnect,
              hhandshake, hwrite, hread, Except.isOk, Except.toBool, Except.toOption]

end SravzBackend.Services.DataProvider
