/-
# `Services.Stores` — Redis, S3 and the data provider

The calls of `RedisClient`, `S3Client` and `DataProvider` that a request for
fundamentals makes.  How each of them goes is up to the other side: `Outcomes`
lists what may happen to the calls of one request, and the functions here say
what the source makes of it.  `S3Client` turns every failure into `false`,
and `DataProvider::httpGet_` every failure into not calling back.
-/
import SravzBackend.BackgroundWorkers
import SravzBackend.Services.World

namespace SravzBackend.Services

open BackgroundWorkers (AsyncOp Resume Coroutine httpGetStep)

/-! ## `DataProvider` -/

/-- How the asynchronous operations of a fetch end, and the response that is
read if they get that far. -/
structure Exchange where
  sniFails : Bool
  fails : AsyncOp → Bool
  status : Nat
  body : Str

namespace Exchange

/-- The response, if it is read to its end. -/
def response (x : Exchange) : Option (Nat × Str) :=
  if x.sniFails then none
  else if x.fails .resolve then none
  else if x.fails .connect then none
  else if x.fails .handshake then none
  else if x.fails .write then none
  else if x.fails .read then none
  else some (x.status, x.body)

/-- `DataProvider::httpGet_`: what the callback is called with, if it is.  The
status is not looked at, and neither is the outcome of the shutdown. -/
def httpGet (x : Exchange) : Option Str := x.response.map Prod.snd

/-- The coroutine whose operations end as `x` has it. -/
def walk (x : Exchange) : Nat → Resume → Coroutine
  | 0, point => .queued point
  | n + 1, point =>
      match httpGetStep point with
      | .suspended op => x.walk n (.after op (x.fails op))
      | c => c

/-- The coroutine ends, with the promise set when there is a response. -/
theorem walk_ends (x : Exchange) :
    x.walk 7 (.entry x.sniFails) = .ended x.httpGet.isSome := by
  cases hsni : x.sniFails with
  | true => simp [walk, httpGetStep, httpGet, response, hsni]
  | false =>
      cases hresolve : x.fails .resolve with
      | true => simp [walk, httpGetStep, httpGet, response, hsni, hresolve]
      | false =>
          cases hconnect : x.fails .connect <;> cases hhandshake : x.fails .handshake <;>
            cases hwrite : x.fails .write <;> cases hread : x.fails .read <;>
            simp [walk, httpGetStep, httpGet, response, hsni, hresolve, hconnect, hhandshake,
              hwrite, hread]

end Exchange

/-! ## The calls of one request -/

/-- How the calls go: what `get` and `set` of Redis throw, whether S3 answers
`HeadObject`, the provider's answer to each target, and whether `PutObject`
succeeds.  A URL is presigned without a call. -/
structure Outcomes where
  redisGet : Option Str
  redisSet : Option Str
  headObject : Bool
  putObject : Bool
  presign : Str → Str → Str
  exchange : Str → Exchange
  apiKey : Str

variable {β : Type} (o : Outcomes)

/-- `RedisClient::get` -/
def redisGet (key : Str) : Call β (Option Str) := do
  match o.redisGet with
  | some what => throw (.thrown what)
  | none => return ((← get).redis key).map Prod.fst

/-- `RedisClient::set_with_expiry`.  A `SET` that throws is taken to have had no
effect, though Redis may have kept the value by the time the client gives up. -/
def redisSetWithExpiry (key value : Str) (expiry : Nat) : Call β Unit := do
  match o.redisSet with
  | some what => throw (.thrown what)
  | none => modify fun w => { w with redis := Function.update w.redis key (some (value, expiry)) }

/-- `S3Client::objectExists` -/
def objectExists (bucket key : Str) : Call β Bool := do
  return o.headObject && ((← get).s3 bucket key).isSome

/-- `S3Client::putObject` -/
def putObject (bucket key value : Str) : Call β Bool := do
  if o.putObject then
    modify fun w => w.putObject bucket key value
    return true
  else return false

/-- `DataProvider::httpGet` and the wait for its promise, which is never over
when the callback is not called. -/
def httpGetAndWait (target : Str) : Call β Str := do
  match (o.exchange target).httpGet with
  | some response => return response
  | none => throw .blocked

end SravzBackend.Services
