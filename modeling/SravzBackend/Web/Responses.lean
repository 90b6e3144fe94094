/-
# `Web.Responses` — what is written in answer to a request

A request that gets a response gets it from one of six builders: `on_read`
writes what `validate_jwt_token` or `handle_request` hands it, and
`handle_request`'s task builds one more that `do_write` extends and writes.
`Dispatched` says which builder a request ends up with, and everything here is
a case analysis of it.

* `content_length_iff`: the `Content-Length` of a response is the number of
  body bytes written, except where the background worker has answered, because
  `do_write` appends to a body whose length is already set.
* `allow_origin_iff`: an admitted origin is sent back by the preflight and the
  background worker alone.
-/
import SravzBackend.Web.HttpSession

namespace SravzBackend.HttpSession

variable (lib : Libraries) (cfg : Config) (route : Router) (threadId : Str)

/-! ## Which builder answers -/

/-- The check of the token, if it is made, lets the request through. -/
def Passes (req : Request) : Prop :=
  cfg.disableJWTTokenValidation = "true".toList ∨ validateJwtToken lib cfg req = none

/-- The request becomes a websocket session. -/
def Upgraded (req : Request) : Prop := Passes lib cfg req ∧ isUpgrade lib req = true

/-- `handle_request` leaves the request to the background worker. -/
structure ForWorker (req : Request) : Prop where
  method : req.method = .get ∨ req.method = .post ∨ req.method = .put ∨ req.method = .delete ∨
    req.method = .patch
  target : req.target ≠ "/health".toList

/-- The request gets to the background worker. -/
structure Posted (req : Request) : Prop where
  passes : Passes lib cfg req
  noUpgrade : isUpgrade lib req = false
  forWorker : ForWorker req

/-- What comes of a request, by the builder that answers it. -/
inductive Dispatched (req : Request) : Action → Prop where
  | text (status : Nat) (why : Str) (hposted : ¬ Posted lib cfg req)
      (hoptions : req.method ≠ .options) (hupgrade : ¬ Upgraded lib cfg req) :
      Dispatched req (.write (textResponse lib status req why))
  | head (h : req.method = .head) : Dispatched req (.write (headResponse lib req))
  | preflight (h : req.method = .options) : Dispatched req (.write (optionsResponse lib cfg req))
  | upgrade (h : Upgraded lib cfg req) : Dispatched req (.websocketSession req)
  | posted (h : Posted lib cfg req) : Dispatched req (.post req)

variable {lib cfg}

theorem Posted.not_options {req : Request} (h : Posted lib cfg req) : req.method ≠ .options := by
  rcases h.forWorker.method with hmethod | hmethod | hmethod | hmethod | hmethod <;>
    rw [hmethod] <;> exact Verb.noConfusion

theorem Posted.not_head {req : Request} (h : Posted lib cfg req) : req.method ≠ .head := by
  rcases h.forWorker.method with hmethod | hmethod | hmethod | hmethod | hmethod <;>
    rw [hmethod] <;> exact Verb.noConfusion

theorem Posted.not_upgraded {req : Request} (h : Posted lib cfg req) : ¬ Upgraded lib cfg req := by
  rintro ⟨_, hupgrade⟩
  rw [h.noUpgrade] at hupgrade
  cases hupgrade

theorem Upgraded.not_options {req : Request} (h : Upgraded lib cfg req) :
    req.method ≠ .options := by
  rw [method_of_isUpgrade h.2]
  exact Verb.noConfusion

theorem Upgraded.not_head {req : Request} (h : Upgraded lib cfg req) : req.method ≠ .head := by
  rw [method_of_isUpgrade h.2]
  exact Verb.noConfusion

theorem validateJwtToken_eq_some {req : Request} {res : Response}
    (h : validateJwtToken lib cfg req = some res) :
    req.method ≠ .options ∧ ∃ why, res = textResponse lib 401 req why := by
  unfold validateJwtToken at h
  split at h
  · cases h
  · next hexempt =>
      refine ⟨fun hoptions => hexempt (.inr hoptions), ?_⟩
      split at h
      · dsimp only at h
        split at h
        · split at h
          · cases h
          all_goals
            cases h
            exact ⟨_, rfl⟩
        · cases h
          exact ⟨_, rfl⟩
      · cases h
        exact ⟨_, rfl⟩

theorem handleRequest_cases (lib : Libraries) (cfg : Config) (req : Request) :
    (req.method = .head ∧ handleRequest lib cfg req = some (headResponse lib req)) ∨
      (req.method = .options ∧ handleRequest lib cfg req = some (optionsResponse lib cfg req)) ∨
      (¬ ForWorker req ∧ req.method ≠ .options ∧
        ∃ status why, handleRequest lib cfg req = some (textResponse lib status req why)) ∨
      (ForWorker req ∧ handleRequest lib cfg req = none) := by
  unfold handleRequest
  split
  · next hunknown =>
      obtain ⟨hget, _, hpost, hput, hdelete, hpatch, hoptions⟩ := hunknown
      refine .inr (.inr (.inl ⟨?_, hoptions, _, _, rfl⟩))
      intro hworker
      rcases hworker.method with h | h | h | h | h
      · exact hget h
      · exact hpost h
      · exact hput h
      · exact hdelete h
      · exact hpatch h
  · next hknown =>
      split
      · next hhead => exact .inl ⟨hhead, rfl⟩
      · next hhead =>
          split
          · next hoptions => exact .inr (.inl ⟨hoptions, rfl⟩)
          · next hoptions =>
              split
              · next hhealth =>
                  exact .inr (.inr (.inl ⟨fun h => h.target hhealth, hoptions, _, _, rfl⟩))
              · next hhealth =>
                  refine .inr (.inr (.inr ⟨⟨?_, hhealth⟩, rfl⟩))
                  tauto

theorem dispatched_of_passes {req : Request} (hpass : Passes lib cfg req) :
    Dispatched lib cfg req (dispatch lib cfg req) := by
  unfold dispatch
  split
  · next hupgrade => exact .upgrade ⟨hpass, hupgrade⟩
  · next hupgrade =>
      rcases handleRequest_cases lib cfg req with
        ⟨hhead, hres⟩ | ⟨hoptions, hres⟩ | ⟨hworker, hoptions, status, why, hres⟩ | ⟨hworker, hres⟩
      · rw [hres]
        exact .head hhead
      · rw [hres]
        exact .preflight hoptions
      · rw [hres]
        exact .text status why (fun h => hworker h.forWorker) hoptions (fun h => hupgrade h.2)
      · rw [hres]
        exact .posted ⟨hpass, Bool.not_eq_true _ ▸ hupgrade, hworker⟩

/-- Every request that is read is dispatched to one of the builders. -/
theorem dispatched (lib : Libraries) (cfg : Config) (req : Request) :
    Dispatched lib cfg req (onRead lib cfg none req) := by
  by_cases hdisable : cfg.disableJWTTokenValidation = "true".toList
  · rw [onRead, if_neg (not_not.mpr hdisable)]
    exact dispatched_of_passes (.inl hdisable)
  · rw [onRead, if_pos hdisable]
    split
    · next res hres =>
        obtain ⟨hoptions, why, rfl⟩ := validateJwtToken_eq_some hres
        have hno : ¬ Passes lib cfg req := by
          rintro (h | h)
          · exact hdisable h
          · rw [h] at hres
            cases hres
        exact .text 401 why (fun h => hno h.passes) hoptions (fun h => hno h.1)
    · next hnone => exact dispatched_of_passes (.inr hnone)

/-! ## What is written -/

/-- The response that is written in answer to a request, if one is; the
background worker's goes through `do_write`. -/
def written (lib : Libraries) (cfg : Config) (route : Router) (threadId : Str) (req : Request) :
    Option Response :=
  match onRead lib cfg none req with
  | .write res => some res
  | .post req => (backgroundTask lib cfg route req).map (doWrite threadId)
  | .websocketSession _ => none
  | .shutdownSend => none
  | .fail => none

def Response.find (res : Response) (name : Str) : Option Str :=
  (res.fields.find? fun field => iequals field.1 name).map Prod.snd

/-- How many bytes of the body are written. -/
def Response.bodyBytes (res : Response) : Nat := (res.body.getD []).length

/-- The router has an answer for the request. -/
def Routed (route : Router) (req : Request) : Prop :=
  ∃ r, route req.method req.target req.body = .ok r

/-- What the task makes of the router's answer. -/
def workerResponse (lib : Libraries) (cfg : Config) (req : Request) (status : Nat) (body : Str) :
    Response :=
  setAllowOrigin cfg req
    { status := status, version := req.version,
      fields := [("Server".toList, lib.beastVersion),
        ("Content-Type".toList, "application/json".toList)],
      keepAlive := keepAlive lib req, contentLength := some body.length, body := some body }

theorem backgroundTask_eq (lib : Libraries) (cfg : Config) {route : Router} {req : Request} :
    backgroundTask lib cfg route req =
      match route req.method req.target req.body with
      | .error () => none
      | .ok (status, body) => some (workerResponse lib cfg req status body) := rfl

/-- The builders of the responses that are written, seen from the outside. -/
inductive Written (lib : Libraries) (cfg : Config) (route : Router) (threadId : Str)
    (req : Request) : Option Response → Prop where
  | text (status : Nat) (why : Str) (hposted : ¬ Posted lib cfg req)
      (hoptions : req.method ≠ .options) (hupgrade : ¬ Upgraded lib cfg req) :
      Written lib cfg route threadId req (some (textResponse lib status req why))
  | head (h : req.method = .head) : Written lib cfg route threadId req (some (headResponse lib req))
  | preflight (h : req.method = .options) :
      Written lib cfg route threadId req (some (optionsResponse lib cfg req))
  | upgrade (h : Upgraded lib cfg req) : Written lib cfg route threadId req none
  | worker (h : Posted lib cfg req) (status : Nat) (body : Str)
      (hroute : route req.method req.target req.body = .ok (status, body)) :
      Written lib cfg route threadId req
        (some (doWrite threadId (workerResponse lib cfg req status body)))
  | thrown (h : Posted lib cfg req) (hroute : ¬ Routed route req) :
      Written lib cfg route threadId req none

theorem written_spec (lib : Libraries) (cfg : Config) (route : Router) (threadId : Str)
    (req : Request) :
    Written lib cfg route threadId req (written lib cfg route threadId req) := by
  have h := dispatched lib cfg req
  unfold written
  generalize onRead lib cfg none req = action at h ⊢
  cases h with
  | text status why hposted hoptions hupgrade => exact .text status why hposted hoptions hupgrade
  | head h => exact .head h
  | preflight h => exact .preflight h
  | upgrade h => exact .upgrade h
  | posted h =>
      simp only [backgroundTask_eq]
      cases hroute : route req.method req.target req.body with
      | error e =>
          refine .thrown h ?_
          rintro ⟨r, hr⟩
          rw [hroute] at hr
          cases hr
      | ok r => exact .worker h r.1 r.2 hroute

/-! ## `Content-Length` -/

/-- A `Content-Length` is the number of body bytes. -/
def Response.LengthMatches (res : Response) : Prop :=
  ∀ n, res.contentLength = some n → n = res.bodyBytes

@[simp]
theorem setAllowOrigin_contentLength (cfg : Config) (req : Request) (res : Response) :
    (setAllowOrigin cfg req res).contentLength = res.contentLength := by
  unfold setAllowOrigin
  split
  · split <;> rfl
  · rfl

@[simp]
theorem setAllowOrigin_body (cfg : Config) (req : Request) (res : Response) :
    (setAllowOrigin cfg req res).body = res.body := by
  unfold setAllowOrigin
  split
  · split <;> rfl
  · rfl

theorem optionsResponse_contentLength (lib : Libraries) (cfg : Config) (req : Request) :
    (optionsResponse lib cfg req).contentLength = none := by
  simp [optionsResponse, Response.set]

/-- `do_write` makes the body longer than the length it was declared with. -/
theorem not_lengthMatches_worker (lib : Libraries) (cfg : Config) (threadId : Str)
    (req : Request) (status : Nat) (body : Str) :
    ¬ (doWrite threadId (workerResponse lib cfg req status body)).LengthMatches := by
  intro h
  have hlength : body.length =
      (doWrite threadId (workerResponse lib cfg req status body)).bodyBytes :=
    h body.length (by simp [doWrite, workerResponse])
  have hbytes : (doWrite threadId (workerResponse lib cfg req status body)).bodyBytes =
      body.length + (" webserver thread ID: ".toList.length + threadId.length) := by
    simp only [Response.bodyBytes, doWrite, workerResponse, setAllowOrigin_body, Option.map_some,
      Option.getD_some, List.length_append, Nat.add_assoc]
  have hsuffix : 0 < " webserver thread ID: ".toList.length := by decide
  omega

/-- **The `Content-Length` of what is written in answer to a request other than
`HEAD` is the number of its body bytes exactly when the background worker has
no answer to write.** -/
theorem content_length_iff (lib : Libraries) (cfg : Config) (route : Router) (threadId : Str)
    (req : Request) (hhead : req.method ≠ .head) :
    (∀ res, written lib cfg route threadId req = some res → res.LengthMatches) ↔
      ¬ (Posted lib cfg req ∧ Routed route req) := by
  have hwritten := written_spec lib cfg route threadId req
  generalize written lib cfg route threadId req = answer at hwritten ⊢
  cases hwritten with
  | text status why hposted =>
      refine iff_of_true ?_ fun h => hposted h.1
      rintro res ⟨⟩ n ⟨⟩
      rfl
  | head h => exact absurd h hhead
  | preflight h =>
      refine iff_of_true ?_ ?_
      · rintro res ⟨⟩ n hn
        rw [optionsResponse_contentLength] at hn
        cases hn
      · exact fun hposted => hposted.1.not_options h
  | upgrade h => exact iff_of_true (fun res hres => nomatch hres) fun hposted => hposted.1.not_upgraded h
  | worker h status body hroute =>
      refine iff_of_false ?_ (not_not.mpr ⟨h, _, hroute⟩)
      intro hall
      exact not_lengthMatches_worker lib cfg threadId req status body (hall _ rfl)
  | thrown h hroute => exact iff_of_true (fun res hres => nomatch hres) fun h' => hroute h'.2

/-- A `GET` with a token; what the worker writes is longer than it says. -/
def tokenRequest : Request where
  method := .get
  target := "/mdb/quotes?s=ETH".toList
  version := 11
  fields := [("Authorization".toList, "Bearer a.b.c".toList),
    ("Origin".toList, "https://sravz.com".toList)]
  body := []

def emptyObjectRouter : Router := fun _ _ _ => .ok (200, "{}".toList)

theorem content_length_health :
    (∀ res, written plainLibraries plainConfig emptyObjectRouter "7f".toList
        { tokenRequest with target := "/health".toList } = some res → res.LengthMatches) ↔
      ¬ (Posted plainLibraries plainConfig { tokenRequest with target := "/health".toList } ∧
        Routed emptyObjectRouter { tokenRequest with target := "/health".toList }) :=
  content_length_iff plainLibraries plainConfig emptyObjectRouter "7f".toList
    { tokenRequest with target := "/health".toList } (by decide)

/-- Two bytes are declared, and twenty-six are written. -/
theorem worker_length_short :
    tokenRequest.method ≠ .head ∧
      ∃ res, written plainLibraries plainConfig emptyObjectRouter "7f".toList tokenRequest =
          some res ∧ res.contentLength = some 2 ∧ res.bodyBytes = 26 :=
  ⟨by decide, _, rfl, rfl, rfl⟩

/-! ## `Access-Control-Allow-Origin` -/

theorem iequals_comm (a b : Str) : iequals a b = iequals b a := by
  unfold iequals
  exact Bool.beq_comm

theorem iequals_trans {a b c : Str} (hab : iequals a b = true) (hbc : iequals b c = true) :
    iequals a c = true := by
  simp only [iequals, beq_iff_eq] at hab hbc ⊢
  exact hab.trans hbc

theorem Response.find_set_self (res : Response) (name value : Str) :
    (res.set name value).find name = some value := by
  have hgone : (res.fields.filter fun field => !iequals field.1 name).find?
      (fun field => iequals field.1 name) = none := by
    refine List.find?_eq_none.mpr ?_
    intro field hfield
    simpa using (List.mem_filter.mp hfield).2
  have hname : iequals name name = true := by simp [iequals]
  simp [Response.find, Response.set, List.find?_append, hgone, hname]

/-- Setting one field leaves the others alone. -/
theorem Response.find_set_of_ne (res : Response) {name name' : Str} (value : Str)
    (h : iequals name name' = false) : (res.set name value).find name' = res.find name' := by
  have hsame : (res.fields.filter fun field => !iequals field.1 name).find?
      (fun field => iequals field.1 name') =
        res.fields.find? fun field => iequals field.1 name' := by
    rw [List.find?_filter]
    congr 1
    funext field
    cases hfield : iequals field.1 name' with
    | false => simp
    | true =>
        cases hother : iequals field.1 name with
        | false => simp
        | true =>
            rw [iequals_comm] at hother
            rw [iequals_trans hother hfield] at h
            cases h
  simp [Response.find, Response.set, List.find?_append, hsame, h]

/-- What the policy has an origin get: itself, if it is configured, and else no
field at all.  Of a request with two `Origin` fields, one of them configured,
that asks more of the other than not to be sent back. -/
def admitted (cfg : Config) (o : Str) : Option Str :=
  if (split cfg.allowedOrigins).contains o then some o else none

@[simp] theorem admitted_of_mem {o : Str} (h : o ∈ split cfg.allowedOrigins) :
    admitted cfg o = some o := if_pos (List.contains_iff_mem.mpr h)

@[simp] theorem admitted_of_not_mem {o : Str} (h : o ∉ split cfg.allowedOrigins) :
    admitted cfg o = none := if_neg (mt List.contains_iff_mem.mp h)

/-- The value of the first `Origin` field, if it is one of the configured
origins. -/
def listedOrigin (cfg : Config) (req : Request) : Option Str :=
  (req.find "Origin".toList).bind (admitted cfg)

def Response.allowOrigin (res : Response) : Option Str :=
  res.find "Access-Control-Allow-Origin".toList

/-- `setAllowOrigin` on a response without the field. -/
theorem allowOrigin_setAllowOrigin (cfg : Config) (req : Request) {res : Response}
    (h : res.allowOrigin = none) :
    (setAllowOrigin cfg req res).allowOrigin = listedOrigin cfg req := by
  unfold setAllowOrigin listedOrigin
  cases req.find "Origin".toList with
  | none => exact h
  | some origin =>
      dsimp only
      split
      · next hmem =>
          rw [Response.allowOrigin, Response.find_set_self, Option.bind_some,
            admitted_of_mem hmem]
      · next hmem => rw [h, Option.bind_some, admitted_of_not_mem hmem]

theorem allowOrigin_text (lib : Libraries) (status : Nat) (req : Request) (why : Str) :
    (textResponse lib status req why).allowOrigin = none := rfl

theorem allowOrigin_head (lib : Libraries) (req : Request) :
    (headResponse lib req).allowOrigin = none := rfl

theorem allowOrigin_preflight (lib : Libraries) (cfg : Config) (req : Request) :
    (optionsResponse lib cfg req).allowOrigin = listedOrigin cfg req := by
  unfold optionsResponse Response.allowOrigin
  rw [Response.find_set_of_ne _ _ (by decide), Response.find_set_of_ne _ _ (by decide),
    Response.find_set_of_ne _ _ (by decide)]
  exact allowOrigin_setAllowOrigin cfg req rfl

theorem allowOrigin_worker (lib : Libraries) (cfg : Config) (threadId : Str) (req : Request)
    (status : Nat) (body : Str) :
    (doWrite threadId (workerResponse lib cfg req status body)).allowOrigin =
      listedOrigin cfg req :=
  allowOrigin_setAllowOrigin cfg req rfl

/-- The first `Origin` field has the value `o`, or neither of the two is
configured. -/
def SpeaksFor (cfg : Config) (req : Request) (o : Str) : Prop :=
  req.find "Origin".toList = some o ∨
    (o ∉ split cfg.allowedOrigins ∧
      ∀ first, req.find "Origin".toList = some first → first ∉ split cfg.allowedOrigins)

theorem listedOrigin_eq_admitted {req : Request} {o : Str} :
    listedOrigin cfg req = admitted cfg o ↔ SpeaksFor cfg req o := by
  unfold listedOrigin SpeaksFor
  by_cases ho : o ∈ split cfg.allowedOrigins
  · -- `o` is configured: only as the first field is it what the request lists
    rw [admitted_of_mem ho, or_iff_left (fun h => h.1 ho)]
    cases req.find "Origin".toList with
    | none => simp
    | some first =>
        rw [Option.bind_some]
        by_cases hfirst : first ∈ split cfg.allowedOrigins
        · rw [admitted_of_mem hfirst]
        · rw [admitted_of_not_mem hfirst]
          refine iff_of_false (fun h => nomatch h) ?_
          rintro ⟨⟩
          exact hfirst ho
  · rw [admitted_of_not_mem ho, Option.bind_eq_none_iff, and_iff_right ho]
    constructor
    · refine fun h => .inr fun first hf hfirst => ?_
      have := h first hf
      rw [admitted_of_mem hfirst] at this
      cases this
    · rintro (h | h) first hf
      · obtain rfl : o = first := Option.some.inj (h.symm.trans hf)
        exact admitted_of_not_mem ho
      · exact admitted_of_not_mem (h first hf)

/-- Nothing is written by the HTTP session. -/
def Unanswered (lib : Libraries) (cfg : Config) (route : Router) (req : Request) : Prop :=
  Upgraded lib cfg req ∨ (Posted lib cfg req ∧ ¬ Routed route req)

/-- The preflight and the background worker, whose builders look at the
origin. -/
def LooksAtOrigin (lib : Libraries) (cfg : Config) (req : Request) : Prop :=
  req.method = .options ∨ Posted lib cfg req

/-- A builder that does not look at the origin sends none back. -/
theorem allowOrigin_of_silent {lib : Libraries} {cfg : Config} {route : Router} {req : Request}
    {res : Response} (o : Str) (hres : res.allowOrigin = none)
    (hanswered : ¬ Unanswered lib cfg route req) (hlooks : ¬ LooksAtOrigin lib cfg req) :
    res.allowOrigin = admitted cfg o ↔
      Unanswered lib cfg route req ∨
        (LooksAtOrigin lib cfg req ∧ SpeaksFor cfg req o) ∨
        (¬ LooksAtOrigin lib cfg req ∧ o ∉ split cfg.allowedOrigins) := by
  rw [hres, or_iff_right hanswered, or_iff_right (fun h => hlooks h.1), and_iff_right hlooks]
  constructor
  · intro h ho
    rw [admitted_of_mem ho] at h
    cases h
  · exact fun ho => (admitted_of_not_mem ho).symm

/-- One that does sends back what the request lists. -/
theorem allowOrigin_of_looking {lib : Libraries} {cfg : Config} {route : Router} {req : Request}
    {res : Response} (o : Str) (hres : res.allowOrigin = listedOrigin cfg req)
    (hanswered : ¬ Unanswered lib cfg route req) (hlooks : LooksAtOrigin lib cfg req) :
    res.allowOrigin = admitted cfg o ↔
      Unanswered lib cfg route req ∨
        (LooksAtOrigin lib cfg req ∧ SpeaksFor cfg req o) ∨
        (¬ LooksAtOrigin lib cfg req ∧ o ∉ split cfg.allowedOrigins) := by
  rw [hres, listedOrigin_eq_admitted, or_iff_right hanswered, or_iff_left (fun h => h.1 hlooks),
    and_iff_right hlooks]

/-- **What is written sends an origin back exactly when it is configured, if
and only if nothing is written, or the preflight or the background worker
answers and the first `Origin` field speaks for that origin, or another
builder answers and the origin is not configured.** -/
theorem allow_origin_iff (lib : Libraries) (cfg : Config) (route : Router) (threadId : Str)
    (req : Request) (o : Str) :
    (∀ res, written lib cfg route threadId req = some res → res.allowOrigin = admitted cfg o) ↔
      Unanswered lib cfg route req ∨
        (LooksAtOrigin lib cfg req ∧ SpeaksFor cfg req o) ∨
        (¬ LooksAtOrigin lib cfg req ∧ o ∉ split cfg.allowedOrigins) := by
  have hwritten := written_spec lib cfg route threadId req
  generalize written lib cfg route threadId req = answer at hwritten ⊢
  have hone : ∀ res : Response,
      (∀ res', some res = some res' → res'.allowOrigin = admitted cfg o) ↔
        res.allowOrigin = admitted cfg o := by
    intro res
    simp only [Option.some.injEq, forall_eq']
  cases hwritten with
  | text status why hposted hoptions hupgrade =>
      have hlooks : ¬ LooksAtOrigin lib cfg req := not_or.mpr ⟨hoptions, hposted⟩
      have hanswered : ¬ Unanswered lib cfg route req :=
        not_or.mpr ⟨hupgrade, fun h => hposted h.1⟩
      rw [hone]
      exact allowOrigin_of_silent o (allowOrigin_text lib status req why) hanswered hlooks
  | head h =>
      have hposted : ¬ Posted lib cfg req := fun h' => h'.not_head h
      have hlooks : ¬ LooksAtOrigin lib cfg req := by
        refine not_or.mpr ⟨?_, hposted⟩
        rw [h]
        exact Verb.noConfusion
      have hanswered : ¬ Unanswered lib cfg route req :=
        not_or.mpr ⟨fun h' => h'.not_head h, fun h' => hposted h'.1⟩
      rw [hone]
      exact allowOrigin_of_silent o (allowOrigin_head lib req) hanswered hlooks
  | preflight h =>
      have hlooks : LooksAtOrigin lib cfg req := .inl h
      have hanswered : ¬ Unanswered lib cfg route req :=
        not_or.mpr ⟨fun h' => h'.not_options h, fun h' => h'.1.not_options h⟩
      rw [hone]
      exact allowOrigin_of_looking o (allowOrigin_preflight lib cfg req) hanswered hlooks
  | upgrade h => exact iff_of_true (fun res hres => nomatch hres) (.inl (.inl h))
  | worker h status body hroute =>
      have hlooks : LooksAtOrigin lib cfg req := .inr h
      have hanswered : ¬ Unanswered lib cfg route req :=
        not_or.mpr ⟨h.not_upgraded, fun h' => h'.2 ⟨_, hroute⟩⟩
      rw [hone]
      exact allowOrigin_of_looking o (allowOrigin_worker lib cfg threadId req status body)
        hanswered hlooks
  | thrown h hroute =>
      exact iff_of_true (fun res hres => nomatch hres) (.inl (.inr ⟨h, hroute⟩))

/-- The preflight admits the origin, and the health check does not send it
back. -/
theorem health_without_allow_origin :
    (∃ res, written plainLibraries plainConfig emptyObjectRouter "7f".toList
        { tokenRequest with method := .options, target := "/health".toList } = some res ∧
        res.allowOrigin = some "https://sravz.com".toList) ∧
      ∃ res, written plainLibraries plainConfig emptyObjectRouter "7f".toList
          { tokenRequest with target := "/health".toList } = some res ∧
        res.status = 200 ∧ res.allowOrigin = none :=
  ⟨⟨_, rfl, rfl⟩, _, rfl, rfl, rfl⟩

end SravzBackend.HttpSession
