/-
# `Web.HttpSession` — one request of an HTTP connection

`http_session::on_read` checks the token, looks for a websocket upgrade and
hands everything else to `handle_request`, which answers some requests itself
and posts the others to the background worker, where the router sees them.
The check lets two kinds of request through without a token, the health check
by its target and a preflight by its method, and leaves it to the rest of the
code that nothing but the health check and the preflight come of them.

`protected_needs_token_iff`: a request gets a websocket session or reaches the
router only with an accepted token, except for an upgrade whose target is
`/health`.
-/
import SravzBackend.Text

namespace SravzBackend.HttpSession

/-! ## Requests and responses -/

/-- `http::verb`, as far as the source tells them apart. -/
inductive Verb where
  | get
  | head
  | post
  | put
  | delete
  | patch
  | options
  | other (name : Str)
deriving DecidableEq

/-- A request; the version is 10 or 11, and the fields are in the order they
came in. -/
structure Request where
  method : Verb
  target : Str
  version : Nat
  fields : List (Str × Str)
  body : Str

/-- `req.find(name)`: field names are compared without regard to case. -/
def Request.find (req : Request) (name : Str) : Option Str :=
  (req.fields.find? fun field => iequals field.1 name).map Prod.snd

def Request.count (req : Request) (name : Str) : Nat :=
  req.fields.countP fun field => iequals field.1 name

/-- `req[name]`: the empty string if there is no such field. -/
def Request.at (req : Request) (name : Str) : Str := (req.find name).getD []

/-- A response; `keepAlive` stands for its `Connection` field,
`contentLength` for its `Content-Length`, and the body of an `empty_body`
response is `none`. -/
structure Response where
  status : Nat
  version : Nat
  fields : List (Str × Str)
  keepAlive : Bool
  contentLength : Option Nat
  body : Option Str

/-- `res.set(name, value)` replaces what is there. -/
def Response.set (res : Response) (name value : Str) : Response :=
  { res with fields := res.fields.filter (fun field => !iequals field.1 name) ++ [(name, value)] }

/-! ## What the session calls -/

/-- What `jwt::decode` throws, by the `catch` clause it ends up in. -/
inductive JwtError where
  | tokenExpired
  | signatureFormat
  | decode
  | verification
  | unknown
deriving DecidableEq

/-- The libraries: `BOOST_BEAST_VERSION_STRING`, `token_list{value}.exists(token)`
and `jwt::decode` of a token with the given algorithms and secret. -/
structure Libraries where
  beastVersion : Str
  listed : Str → Str → Bool
  jwtDecode : List Str → Str → Str → Except JwtError Unit

/-- What the session reads from the configuration. -/
structure Config where
  jwtToken : Str
  disableJWTTokenValidation : Str
  allowedOrigins : Str

/-- `router::route`; it may throw. -/
abbrev Router := Verb → Str → Str → Except Unit (Nat × Str)

variable (lib : Libraries) (cfg : Config)

/-- `req.keep_alive()` -/
def keepAlive (req : Request) : Bool :=
  if req.version < 11 then lib.listed (req.at "Connection".toList) "keep-alive".toList
  else !lib.listed (req.at "Connection".toList) "close".toList

/-- `websocket::is_upgrade` -/
def isUpgrade (req : Request) : Bool :=
  req.version == 11 && req.method == .get &&
    lib.listed (req.at "Connection".toList) "upgrade".toList &&
    lib.listed (req.at "Upgrade".toList) "websocket".toList

/-! ## The responses -/

/-- The text responses differ in their status and their text. -/
def textResponse (status : Nat) (req : Request) (text : Str) : Response where
  status := status
  version := req.version
  fields := [("Server".toList, lib.beastVersion), ("Content-Type".toList, "text/html".toList)]
  keepAlive := keepAlive lib req
  contentLength := some text.length
  body := some text

def unauthorized (req : Request) (why : Str) : Response := textResponse lib 401 req why

def badRequest (req : Request) (why : Str) : Response := textResponse lib 400 req why

def healthCheckResponse (req : Request) : Response := textResponse lib 200 req "Ok".toList

/-- The part of the path from its last dot on. -/
def extension (path : Str) : Str :=
  if '.' ∈ path then '.' :: (path.reverse.takeWhile (· ≠ '.')).reverse else []

def mimeTypes : List (Str × Str) :=
  [(".htm".toList, "text/html".toList), (".html".toList, "text/html".toList),
    (".php".toList, "text/html".toList), (".css".toList, "text/css".toList),
    (".txt".toList, "text/plain".toList), (".js".toList, "application/javascript".toList),
    (".json".toList, "application/json".toList), (".xml".toList, "application/xml".toList),
    (".swf".toList, "application/x-shockwave-flash".toList),
    (".flv".toList, "video/x-flv".toList), (".png".toList, "image/png".toList),
    (".jpe".toList, "image/jpeg".toList), (".jpeg".toList, "image/jpeg".toList),
    (".jpg".toList, "image/jpeg".toList), (".gif".toList, "image/gif".toList),
    (".bmp".toList, "image/bmp".toList), (".ico".toList, "image/vnd.microsoft.icon".toList),
    (".tiff".toList, "image/tiff".toList), (".tif".toList, "image/tiff".toList),
    (".svg".toList, "image/svg+xml".toList), (".svgz".toList, "image/svg+xml".toList)]

/-- `mime_type` -/
def mimeType (path : Str) : Str :=
  match mimeTypes.find? fun entry => iequals (extension path) entry.1 with
  | some entry => entry.2
  | none => "application/text".toList

/-- The size is a constant, not that of a resource. -/
def headResponse (req : Request) : Response where
  status := 200
  version := req.version
  fields := [("Server".toList, lib.beastVersion), ("Content-Type".toList, mimeType req.target)]
  keepAlive := keepAlive lib req
  contentLength := some 1
  body := none

/-- An origin that is one of the configured ones is sent back. -/
def setAllowOrigin (req : Request) (res : Response) : Response :=
  match req.find "Origin".toList with
  | some origin =>
      if origin ∈ split cfg.allowedOrigins then
        res.set "Access-Control-Allow-Origin".toList origin
      else res
  | none => res

def allowHeaders : Str :=
  ("Origin,X-Requested-With,Content-Type,Accept,Authorization,Accept-" ++
    "Language,Content-Language,Last-Event-ID,X-HTTP-Method-Override").toList

def optionsResponse (req : Request) : Response :=
  let res : Response :=
    { status := 204, version := req.version,
      fields := [("Server".toList, lib.beastVersion)],
      keepAlive := keepAlive lib req, contentLength := none, body := none }
  let res := setAllowOrigin cfg req res
  let res := res.set "Access-Control-Allow-Headers".toList allowHeaders
  let res := res.set "Access-Control-Allow-Methods".toList
    "POST, GET, PUT, DELETE, PATCH, HEAD".toList
  res.set "Access-Control-Allow-Credentials".toList "true".toList

/-! ## The session -/

/-- `http_session::validate_jwt_token`; `none` lets the request through. -/
def validateJwtToken (req : Request) : Option Response :=
  if req.target = "/health".toList ∨ req.method = .options then none
  else if 0 < req.count "Authorization".toList then
    let header := req.at "Authorization".toList
    if header.take 7 = "Bearer ".toList then
      match lib.jwtDecode ["HS256".toList] cfg.jwtToken (header.drop 7) with
      | .ok () => none
      | .error .tokenExpired =>
          some (unauthorized lib req "Unauthorized - api_token expired".toList)
      | .error .signatureFormat =>
          some (unauthorized lib req "Unauthorized - api_token signature format error".toList)
      | .error .decode =>
          some (unauthorized lib req "Unauthorized - api_token decode error".toList)
      | .error .verification =>
          some (unauthorized lib req "Unauthorized - api_token verification error".toList)
      | .error .unknown =>
          some (unauthorized lib req "Unauthorized - api_token unknown error".toList)
    else some (unauthorized lib req "Unauthorized - api_token missing".toList)
  else some (unauthorized lib req "Unauthorized - api_token missing".toList)

/-- `http_session::handle_request`; `none` where it has posted the request to
the background worker. -/
def handleRequest (req : Request) : Option Response :=
  if req.method ≠ .get ∧ req.method ≠ .head ∧ req.method ≠ .post ∧ req.method ≠ .put ∧
      req.method ≠ .delete ∧ req.method ≠ .patch ∧ req.method ≠ .options then
    some (badRequest lib req "Unknown HTTP-method".toList)
  else if req.method = .head then some (headResponse lib req)
  else if req.method = .options then some (optionsResponse lib cfg req)
  else if req.target = "/health".toList then some (healthCheckResponse lib req)
  else none

/-- The task posted to the background worker; `none` if the router threw. -/
def backgroundTask (route : Router) (req : Request) : Option Response :=
  match route req.method req.target req.body with
  | .error () => none
  | .ok (code, body) =>
      some (setAllowOrigin cfg req
        { status := code, version := req.version,
          fields := [("Server".toList, lib.beastVersion),
            ("Content-Type".toList, "application/json".toList)],
          keepAlive := keepAlive lib req, contentLength := some body.length,
          body := some body })

/-- `http_session::do_write`: what is sent of the background worker's
response. -/
def doWrite (threadId : Str) (res : Response) : Response :=
  { res with body := res.body.map fun msg => msg ++ " webserver thread ID: ".toList ++ threadId }

/-- The errors `on_read` tells apart. -/
inductive ReadError where
  | endOfStream
  | other
deriving DecidableEq

/-- What comes of a read: the connection is shut down or the error reported, a
response is written, a websocket session takes the connection over, or the
background worker gets the request. -/
inductive Action where
  | shutdownSend
  | fail
  | write (res : Response)
  | websocketSession (req : Request)
  | post (req : Request)

/-- `on_read` after the check of the token. -/
def dispatch (req : Request) : Action :=
  if isUpgrade lib req then .websocketSession req
  else
    match handleRequest lib cfg req with
    | some res => .write res
    | none => .post req

/-- `http_session::on_read` -/
def onRead (ec : Option ReadError) (req : Request) : Action :=
  match ec with
  | some .endOfStream => .shutdownSend
  | some .other => .fail
  | none =>
      if cfg.disableJWTTokenValidation ≠ "true".toList then
        match validateJwtToken lib cfg req with
        | some res => .write res
        | none => dispatch lib cfg req
      else dispatch lib cfg req

/-! ## Who gets through -/

/-- A websocket session, or the router by way of the background worker. -/
def Action.Protected : Action → Prop
  | .websocketSession _ => True
  | .post _ => True
  | _ => False

/-- The request has an `Authorization` field with a token that is accepted. -/
def CarriesToken (req : Request) : Prop :=
  ∃ field ∈ req.fields, iequals field.1 "Authorization".toList = true ∧
    ∃ token, field.2 = "Bearer ".toList ++ token ∧
      lib.jwtDecode ["HS256".toList] cfg.jwtToken token = .ok ()

/-- An upgrade that is let through as a health check. -/
def HealthUpgrade (req : Request) : Prop :=
  req.target = "/health".toList ∧ isUpgrade lib req = true

variable {lib cfg}

theorem exists_field_of_count {req : Request} {name : Str} (h : 0 < req.count name) :
    ∃ field ∈ req.fields, iequals field.1 name = true ∧ req.at name = field.2 := by
  obtain ⟨field, hmem, hname⟩ := List.countP_pos_iff.mp h
  have hsome : (req.fields.find? fun field => iequals field.1 name).isSome :=
    List.find?_isSome.mpr ⟨field, hmem, hname⟩
  obtain ⟨first, hfirst⟩ := Option.isSome_iff_exists.mp hsome
  have hmatch := List.find?_some hfirst
  refine ⟨first, List.mem_of_find?_eq_some hfirst, hmatch, ?_⟩
  simp only [Request.at, Request.find, hfirst, Option.map_some, Option.getD_some]

/-- Only the health check, a preflight and a request with an accepted token
pass the check. -/
theorem validateJwtToken_eq_none {req : Request} (h : validateJwtToken lib cfg req = none) :
    req.target = "/health".toList ∨ req.method = .options ∨ CarriesToken lib cfg req := by
  rw [validateJwtToken] at h
  split at h
  · next hexempt => exact hexempt.imp_right .inl
  · split at h
    · next hcount =>
        obtain ⟨field, hmem, hname, hat⟩ := exists_field_of_count hcount
        dsimp only at h
        split at h
        · next hbearer =>
            refine .inr (.inr ⟨field, hmem, hname, field.2.drop 7, ?_, ?_⟩)
            · rw [hat] at hbearer
              rw [← hbearer, List.take_append_drop]
            · rw [hat] at h
              cases hdecode : lib.jwtDecode ["HS256".toList] cfg.jwtToken (field.2.drop 7) with
              | ok u => rfl
              | error e =>
                  rw [hdecode] at h
                  cases e <;> cases h
        · cases h
    · cases h

/-- Neither a preflight nor the health check is posted. -/
theorem handleRequest_eq_none {req : Request} (h : handleRequest lib cfg req = none) :
    req.method ≠ .options ∧ req.target ≠ "/health".toList := by
  rw [handleRequest] at h
  split at h
  · cases h
  · split at h
    · cases h
    · split at h
      · cases h
      · next hoptions =>
          split at h
          · cases h
          · next hhealth => exact ⟨hoptions, hhealth⟩

theorem method_of_isUpgrade {req : Request} (h : isUpgrade lib req = true) :
    req.method = .get := by
  simp only [isUpgrade, Bool.and_eq_true, beq_iff_eq] at h
  exact h.1.1.2

/-- What is not a health upgrade needs a token to get past the dispatch. -/
theorem token_of_dispatch {req : Request} (hpass : validateJwtToken lib cfg req = none)
    (hhealth : ¬ HealthUpgrade lib req) (h : (dispatch lib cfg req).Protected) :
    CarriesToken lib cfg req := by
  rw [dispatch] at h
  split at h
  · next hupgrade =>
      rcases validateJwtToken_eq_none hpass with htarget | hoptions | htoken
      · exact absurd ⟨htarget, hupgrade⟩ hhealth
      · rw [method_of_isUpgrade hupgrade] at hoptions
        cases hoptions
      · exact htoken
  · split at h
    · exact False.elim h
    · next hposted =>
        obtain ⟨hmethod, htarget⟩ := handleRequest_eq_none hposted
        rcases validateJwtToken_eq_none hpass with htarget' | hoptions | htoken
        · exact absurd htarget' htarget
        · exact absurd hoptions hmethod
        · exact htoken

/-- **With the validation on, a request gets a websocket session or reaches
the router only with an accepted token exactly when it has one or is not an
upgrade with target `/health`.** -/
theorem protected_needs_token_iff (lib : Libraries) (cfg : Config) (req : Request)
    (hdisable : cfg.disableJWTTokenValidation ≠ "true".toList) :
    ((onRead lib cfg none req).Protected → CarriesToken lib cfg req) ↔
      CarriesToken lib cfg req ∨ ¬ HealthUpgrade lib req := by
  constructor
  · intro h
    by_contra hno
    obtain ⟨htoken, hhealth⟩ := not_or.mp hno
    obtain ⟨htarget, hupgrade⟩ := not_not.mp hhealth
    refine htoken (h ?_)
    have hpass : validateJwtToken lib cfg req = none := by
      rw [validateJwtToken, if_pos (.inl htarget)]
    simp only [onRead, hpass, dispatch, hupgrade, if_true, if_pos hdisable]
    trivial
  · rintro (htoken | hhealth) h
    · exact htoken
    · simp only [onRead, if_pos hdisable] at h
      split at h
      · exact False.elim h
      · next hpass => exact token_of_dispatch hpass hhealth h

/-- Libraries for concrete requests: a field lists the pieces between its
commas, and one token is accepted. -/
def plainLibraries : Libraries where
  beastVersion := "Boost.Beast/322".toList
  listed value token := (split value).any fun piece => iequals (piece.dropWhile (· == ' ')) token
  jwtDecode _ _ token := if token = "a.b.c".toList then .ok () else .error .decode

def plainConfig : Config where
  jwtToken := "secret".toList
  disableJWTTokenValidation := "false".toList
  allowedOrigins := "https://sravz.com".toList

/-- A websocket upgrade with the given target. -/
def upgradeRequest (target : Str) : Request where
  method := .get
  target := target
  version := 11
  fields := [("Connection".toList, "keep-alive, Upgrade".toList),
    ("Upgrade".toList, "websocket".toList)]
  body := []

theorem protected_needs_token_root :
    ((onRead plainLibraries plainConfig none (upgradeRequest "/".toList)).Protected →
        CarriesToken plainLibraries plainConfig (upgradeRequest "/".toList)) ↔
      CarriesToken plainLibraries plainConfig (upgradeRequest "/".toList) ∨
        ¬ HealthUpgrade plainLibraries (upgradeRequest "/".toList) :=
  protected_needs_token_iff plainLibraries plainConfig (upgradeRequest "/".toList) (by decide)

/-- A websocket upgrade of `/health` needs no token. -/
theorem health_upgrade_unguarded :
    plainConfig.disableJWTTokenValidation ≠ "true".toList ∧
      onRead plainLibraries plainConfig none (upgradeRequest "/health".toList) =
        .websocketSession (upgradeRequest "/health".toList) ∧
      ¬ CarriesToken plainLibraries plainConfig (upgradeRequest "/health".toList) := by
  refine ⟨by decide, rfl, ?_⟩
  rintro ⟨field, hmem, hname, _⟩
  have hnone : ∀ field ∈ (upgradeRequest "/health".toList).fields,
      iequals field.1 "Authorization".toList = false := by decide
  rw [hnone field hmem] at hname
  cases hname

end SravzBackend.HttpSession
