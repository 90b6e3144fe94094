/-
# `Controllers.FundamentalsTurns` — requests for funds, at the same time

The threads of the background worker each handle a request, and nothing keeps
two requests for funds apart: between two calls of one, the other may look at
Redis and S3 or change them.  Here `FundamentalsController::get` is cut at its
calls, and any number of requests take turns, while keys of Redis expire.

`funds_apart`: however they do, what is stored for a fund is what the provider
said of that fund, and the URLs that are cached and returned for it are those of
its own object.  `urls_backed_in_runs_iff`: in all runs every URL that is cached or
returned has its object behind it, exactly when no request's `putObject` may
fail after a response whose URL it then caches.
-/
import SravzBackend.Controllers.Fundamentals
import SravzBackend.Lib.Turns

namespace SravzBackend.FundamentalsController

open Services
open Turns (Keeps keeps_bind keeps_fail keeps_pure)

variable {β : Type} (o : Outcomes)

/-! ## The calls -/

/-- `redisGet`, as one call. -/
def redisGetTurns (key : Str) : Turns Stop (World β) (Option Str) :=
  match o.redisGet with
  | some what => .fail (.thrown what)
  | none => do return ((← Turns.look).redis key).map Prod.fst

def redisSetTurns (key value : Str) (expiry : Nat) : Turns Stop (World β) Unit :=
  match o.redisSet with
  | some what => .fail (.thrown what)
  | none =>
      .change fun w => { w with redis := Function.update w.redis key (some (value, expiry)) }

def objectExistsTurns (bucket key : Str) : Turns Stop (World β) Bool := do
  return o.headObject && ((← Turns.look).s3 bucket key).isSome

def putObjectTurns (bucket key value : Str) : Turns Stop (World β) Bool :=
  if o.putObject then do
    Turns.change fun w => w.putObject bucket key value
    return true
  else return false

/-- The exchange with the provider changes nothing here. -/
def httpGetTurns (target : Str) : Turns Stop (World β) Str :=
  match (o.exchange target).httpGet with
  | some response => return response
  | none => .fail .blocked

/-! ## The controller -/

def codeTurns (sravzID : Str) : Turns Stop (World β) Str :=
  match convertMutualFundSravzIDToCode sravzID with
  | .ok code => return code
  | .error what => .fail (.thrown what)

def fetchTurns (sravzID : Str) : Turns Stop (World β) Unit := do
  let code ← codeTurns sravzID
  let response ← httpGetTurns o (eodTarget o.apiKey code)
  let _ ← putObjectTurns o fundamentalsBucketName (fileLocation sravzID) response

def checkTurns (sravzID : Str) : Turns Stop (World β) Unit := do
  if ← objectExistsTurns o fundamentalsBucketName (fileLocation sravzID) then return ()
  else fetchTurns o sravzID

/-- What is left of `get` once Redis has answered. -/
def afterGetTurns (m : PreSignedUrlModel) :
    Option Str → Turns Stop (World β) PreSignedUrlModel
  | some redisPresignedURL => return m.setUrl redisPresignedURL
  | none => do
      checkTurns o m.sravzid
      let preSignedURL := o.presign fundamentalsBucketName (fileLocation m.sravzid)
      redisSetTurns o (fileLocation m.sravzid) preSignedURL keyExpiryInSeconds
      return m.setUrl preSignedURL

/-- `FundamentalsController::get`, cut at its calls. -/
def getTurns (m : PreSignedUrlModel) : Turns Stop (World β) PreSignedUrlModel := do
  afterGetTurns o m (← redisGetTurns o (fileLocation m.sravzid))

section Cuts

open Turns (Cuts)

theorem cuts_redisGet (key : Str) : Cuts (redisGetTurns o key) (redisGet o key : Call β _) := by
  unfold redisGetTurns redisGet
  cases o.redisGet with
  | some what => exact .fail _
  | none => exact Cuts.look.bind fun w => .pure _

theorem cuts_redisSet (key value : Str) (expiry : Nat) :
    Cuts (redisSetTurns o key value expiry) (redisSetWithExpiry o key value expiry : Call β _) := by
  unfold redisSetTurns redisSetWithExpiry
  cases o.redisSet with
  | some what => exact .fail _
  | none => exact .change _

theorem cuts_fetch (sravzID : Str) :
    Cuts (fetchTurns o sravzID)
      (fetchDataAndSaveToS3 o sravzID (fileLocation sravzID) : Call β _) := by
  refine Cuts.bind ?_ fun code => Cuts.bind ?_ fun response => Cuts.bind ?_ fun _ => .pure _
  · unfold codeTurns
    cases convertMutualFundSravzIDToCode sravzID with
    | ok code => exact .pure _
    | error what => exact .fail _
  · unfold httpGetTurns httpGetAndWait
    cases (o.exchange (eodTarget o.apiKey code)).httpGet with
    | some response => exact .pure _
    | none => exact .fail _
  · unfold putObjectTurns putObject
    cases o.putObject with
    | true => exact (Cuts.change _).bind fun _ => .pure _
    | false => exact .pure _

theorem cuts_check (sravzID : Str) :
    Cuts (checkTurns o sravzID)
      (checkAndFetchData o sravzID (fileLocation sravzID) : Call β _) := by
  refine Cuts.bind (Cuts.look.bind fun w => .pure _) fun found => ?_
  cases found with
  | true => exact .pure _
  | false => exact cuts_fetch o sravzID

/-- Left alone, it is `get`. -/
theorem cuts_get (m : PreSignedUrlModel) : Cuts (getTurns o m) (get o m : Call β _) := by
  refine (cuts_redisGet o _).bind fun r => ?_
  cases r with
  | some url => exact .pure _
  | none => exact (cuts_check o _).bind fun _ => (cuts_redisSet o _ _ _).bind fun _ => .pure _

end Cuts

/-! ## What a request keeps to -/

section Keeping

variable {o} {R : World β → World β → Prop} [IsTrans (World β) R] {B : World β → Prop}
  {s₀ s : World β} {sravzID : Str}

/-- What is put, or would have been, is what the provider has said. -/
theorem keeps_fetch (hs : R s₀ s)
    (hput : ∀ w code status body, R s₀ w → convertMutualFundSravzIDToCode sravzID = .ok code →
      response o code = some (status, body) →
      R w (afterPut o w sravzID body) ∧ B (afterPut o w sravzID body))
    (hB : ∀ w w', B w → R w w' → B w') :
    Keeps R (fun r w => R s₀ w ∧ (r = .ok () → B w)) (fetchTurns o sravzID) s := by
  unfold fetchTurns codeTurns
  cases hcode : convertMutualFundSravzIDToCode sravzID with
  | error what => exact keeps_fail fun w hw => ⟨trans_of R hs hw, nofun⟩
  | ok code =>
      show Keeps R _ (do
        let response ← httpGetTurns o (eodTarget o.apiKey code)
        let _ ← putObjectTurns o fundamentalsBucketName (fileLocation sravzID) response) s
      unfold httpGetTurns Exchange.httpGet
      cases hresponse : (o.exchange (eodTarget o.apiKey code)).response with
      | none => exact keeps_fail fun w hw => ⟨trans_of R hs hw, nofun⟩
      | some r =>
          obtain ⟨status, body⟩ := r
          have hafter := fun w hw => hput w code status body hw hcode hresponse
          show Keeps R _ (do
            let _ ← putObjectTurns o fundamentalsBucketName (fileLocation sravzID) body) s
          unfold putObjectTurns
          unfold afterPut at hafter
          cases hsucceeds : o.putObject with
          | true =>
              rw [hsucceeds] at hafter
              intro w hw
              have hw₀ := trans_of R hs hw
              obtain ⟨hmove, hready⟩ := hafter w hw₀
              exact ⟨hmove, fun w' hw' =>
                ⟨trans_of R hw₀ (trans_of R hmove hw'), fun _ => hB _ w' hready hw'⟩⟩
          | false =>
              rw [hsucceeds] at hafter
              intro w hw
              have hw₀ := trans_of R hs hw
              exact ⟨hw₀, fun _ => (hafter w hw₀).2⟩

variable [Std.Refl R]

theorem keeps_check (hs : R s₀ s) (hfound : ∀ w, R s₀ w → Found o w sravzID → B w)
    (hput : ∀ w code status body, R s₀ w → convertMutualFundSravzIDToCode sravzID = .ok code →
      response o code = some (status, body) →
      R w (afterPut o w sravzID body) ∧ B (afterPut o w sravzID body))
    (hB : ∀ w w', B w → R w w' → B w') :
    Keeps R (fun r w => R s₀ w ∧ (r = .ok () → B w)) (checkTurns o sravzID) s := by
  intro w hw
  have hw₀ := trans_of R hs hw
  refine ⟨refl_of R w, ?_⟩
  show Keeps R _ (if (o.headObject && (stored w sravzID).isSome) = true then pure ()
    else fetchTurns o sravzID) w
  split
  · next hthere =>
      rw [Bool.and_eq_true, Option.isSome_iff_ne_none] at hthere
      have hready := hfound w hw₀ hthere
      exact keeps_pure fun w' hw' => ⟨trans_of R hw₀ hw', fun _ => hB w w' hready hw'⟩
  · exact keeps_fetch hw₀ hput hB

/-- What a request does to a fund: it finds a URL, or brings about `B` and sets
one; whatever it throws, it promises nothing of. -/
theorem keeps_get {m : PreSignedUrlModel} {Q : Except Stop PreSignedUrlModel → World β → Prop}
    (hs : R s₀ s)
    (hhit : ∀ w url, R s₀ w → cached w m.sravzid = some url →
      ∀ w', R w w' → Q (.ok (m.setUrl url)) w')
    (hstop : ∀ stop w, R s₀ w → Q (.error stop) w)
    (hfound : ∀ w, R s₀ w → Found o w m.sravzid → B w)
    (hput : ∀ w code status body, R s₀ w → convertMutualFundSravzIDToCode m.sravzid = .ok code →
      response o code = some (status, body) →
      R w (afterPut o w m.sravzid body) ∧ B (afterPut o w m.sravzid body))
    (hB : ∀ w w', B w → R w w' → B w')
    (hset : o.redisGet = none → o.redisSet = none → ∀ w, R s₀ w → B w →
      R w (afterSet o w m.sravzid) ∧ ∀ w', R (afterSet o w m.sravzid) w' →
        Q (.ok (m.setUrl (o.presign fundamentalsBucketName (fileLocation m.sravzid)))) w') :
    Keeps R Q (getTurns o m) s := by
  unfold getTurns redisGetTurns
  cases hget : o.redisGet with
  | some what => exact keeps_fail fun w hw => hstop _ w (trans_of R hs hw)
  | none =>
      intro w hw
      have hw₀ := trans_of R hs hw
      refine ⟨refl_of R w, ?_⟩
      show Keeps R Q (afterGetTurns o m (cached w m.sravzid)) w
      cases hcached : cached w m.sravzid with
      | some url => exact keeps_pure fun w' hw' => hhit w url hw₀ hcached w' hw'
      | none =>
          refine keeps_bind (keeps_check hw₀ hfound hput hB) ?_ fun stop w' h => hstop stop w' h.1
          rintro ⟨⟩ w' ⟨hw', hready⟩
          unfold redisSetTurns
          cases hredis : o.redisSet with
          | some what => exact keeps_fail fun w'' hw'' => hstop _ w'' (trans_of R hw' hw'')
          | none =>
              intro w'' hw''
              exact hset hget hredis w'' (trans_of R hw' hw'') (hB w' w'' (hready rfl) hw'')

end Keeping

/-! ## Where things are -/

theorem fileLocation_injective : Function.Injective fileLocation := by
  intro id id' h
  exact List.append_cancel_left (List.append_cancel_right h)

section Elsewhere

variable {o} {w : World β} {id id' : Str}

theorem stored_afterPut_of_ne (body : Str) (h : id' ≠ id) :
    stored (afterPut o w id body) id' = stored w id' := by
  unfold afterPut
  split
  · exact World.putObject_s3_of_ne fun hsame => h (fileLocation_injective hsame.2)
  · rfl

theorem cached_afterPut (body : Str) : cached (afterPut o w id body) id' = cached w id' := by
  unfold afterPut
  split <;> rfl

theorem cached_afterSet_of_ne (h : id' ≠ id) : cached (afterSet o w id) id' = cached w id' := by
  have hne : fileLocation id' ≠ fileLocation id := fileLocation_injective.ne h
  exact congrArg (Option.map Prod.fst) (Function.update_of_ne hne ..)

end Elsewhere

/-! ## Requests that take turns -/

/-- A request, with what becomes of the calls it makes. -/
abbrev FundRequest := Outcomes × PreSignedUrlModel

abbrev FundRequests (β : Type) := Turns.Threads FundRequest Stop (World β) PreSignedUrlModel

def expire (key : Str) (w : World β) : World β :=
  { w with redis := Function.update w.redis key none }

/-- What is cached after an expiry was cached before. -/
theorem cached_of_expire {key id url : Str} {w : World β}
    (h : cached (expire key w) id = some url) : cached w id = some url := by
  by_cases hkey : fileLocation id = key
  · subst hkey
    change Option.map Prod.fst (Function.update w.redis (fileLocation id) none _) = _ at h
    rw [Function.update_self] at h
    cases h
  · change Option.map Prod.fst (Function.update w.redis key none _) = _ at h
    rw [Function.update_of_ne hkey] at h
    exact h

def requestsStep : FundRequests β → Turns.Action FundRequest Str → Option (FundRequests β) :=
  Turns.step (fun request => getTurns request.1 request.2) expire

/-- The provider has said it of the fund, to one of the requests for it. -/
def Provided (A : FundRequest → Prop) (id body : Str) : Prop :=
  ∃ o m, A (o, m) ∧ m.sravzid = id ∧
    ∃ code status, convertMutualFundSravzIDToCode id = .ok code ∧
      response o code = some (status, body)

/-- One of the requests for the fund has had it presigned for the fund's object. -/
def Signed (A : FundRequest → Prop) (id url : Str) : Prop :=
  ∃ o m, A (o, m) ∧ m.sravzid = id ∧
    url = o.presign fundamentalsBucketName (fileLocation id)

/-- What is stored and cached comes from a request for the fund, or was there. -/
structure Apart (A : FundRequest → Prop) (w w' : World β) : Prop where
  stored : ∀ id body, stored w' id = some body → stored w id = some body ∨ Provided A id body
  cached : ∀ id url, cached w' id = some url → cached w id = some url ∨ Signed A id url

instance (A : FundRequest → Prop) : Std.Refl (Apart (β := β) A) :=
  ⟨fun _ => ⟨fun _ _ h => .inl h, fun _ _ h => .inl h⟩⟩

instance (A : FundRequest → Prop) : IsTrans (World β) (Apart A) := by
  refine ⟨fun w w' w'' h h' => ⟨fun id body hbody => ?_, fun id url hurl => ?_⟩⟩
  · rcases h'.stored id body hbody with hbefore | hprovided
    · exact h.stored id body hbefore
    · exact .inr hprovided
  · rcases h'.cached id url hurl with hbefore | hsigned
    · exact h.cached id url hbefore
    · exact .inr hsigned

section Apart

variable {A : FundRequest → Prop} {m : PreSignedUrlModel} {w : World β}

theorem apart_afterPut (hA : A (o, m)) {code body : Str} {status : Nat}
    (hcode : convertMutualFundSravzIDToCode m.sravzid = .ok code)
    (hresponse : response o code = some (status, body)) :
    Apart A w (afterPut o w m.sravzid body) := by
  refine ⟨fun id body' hbody => ?_, fun id url hurl => ?_⟩
  · by_cases hid : id = m.sravzid
    · subst hid
      rw [stored_afterPut] at hbody
      split at hbody
      · cases hbody
        exact .inr ⟨o, m, hA, rfl, code, status, hcode, hresponse⟩
      · exact .inl hbody
    · rw [stored_afterPut_of_ne body hid] at hbody
      exact .inl hbody
  · rw [cached_afterPut] at hurl
    exact .inl hurl

theorem apart_afterSet (hA : A (o, m)) : Apart A w (afterSet o w m.sravzid) := by
  refine ⟨fun id body hbody => .inl hbody, fun id url hurl => ?_⟩
  by_cases hid : id = m.sravzid
  · subst hid
    rw [cached_afterSet] at hurl
    cases hurl
    exact .inr ⟨o, m, hA, rfl, rfl⟩
  · rw [cached_afterSet_of_ne hid] at hurl
    exact .inl hurl

theorem apart_expire (key : Str) (w : World β) : Apart A w (expire key w) :=
  ⟨fun _ _ hbody => .inl hbody, fun _ _ hurl => .inl (cached_of_expire hurl)⟩

/-- The URL a request returns is one of its fund's. -/
def Own (A : FundRequest → Prop) (w₀ : World β) (request : FundRequest)
    (r : Except Stop PreSignedUrlModel) : Prop :=
  ∀ m, r = .ok m → ∃ url, m = request.2.setUrl url ∧
    (cached w₀ request.2.sravzid = some url ∨ Signed A request.2.sravzid url)

theorem keeps_apart {w₀ : World β} (hA : A (o, m)) (hw : Apart A w₀ w) :
    Keeps (Apart A) (fun r _ => Own A w₀ (o, m) r) (getTurns o m) w := by
  refine keeps_get (B := fun _ => True) hw ?_ (fun _ _ _ => nofun) (fun _ _ _ => trivial)
    (fun w code status body _ hcode hresponse =>
      ⟨apart_afterPut o hA hcode hresponse, trivial⟩) (fun _ _ _ _ => trivial) ?_
  · rintro w' url hw' hurl _ _ _ ⟨⟩
    exact ⟨url, rfl, hw'.cached _ url hurl⟩
  · intro _ _ w' _ _
    refine ⟨apart_afterSet o hA, ?_⟩
    rintro _ _ _ ⟨⟩
    exact ⟨_, rfl, .inr ⟨o, m, hA, rfl, rfl⟩⟩

end Apart

/-- **However requests for funds take turns, what is stored for a fund was
there or is what the provider has said of it to one of the requests for it;
and the URLs that are cached for it, and returned to a request for it, were
cached or have been presigned for its own object.** -/
theorem funds_apart {w₀ : World β} {as : List (Turns.Action FundRequest Str)} {x : FundRequests β}
    (hrun : Runs.run requestsStep ⟨w₀, []⟩ as = some x) :
    (∀ id body, stored x.state id = some body →
        stored w₀ id = some body ∨ Provided (.start · ∈ as) id body) ∧
      (∀ id url, cached x.state id = some url →
        cached w₀ id = some url ∨ Signed (.start · ∈ as) id url) ∧
      ∀ request m, (request, .ret (.ok m)) ∈ x.started →
        ∃ url, m = request.2.setUrl url ∧
          (cached w₀ request.2.sravzid = some url ∨
            Signed (.start · ∈ as) request.2.sravzid url) := by
  have hkeeps := Turns.run_keeps (R := Apart (.start · ∈ as))
    (Q := fun request r _ => Own (.start · ∈ as) w₀ request r) (fun _ ht => absurd ht List.not_mem_nil)
    (fun request hstart w hw => keeps_apart request.1 hstart hw) apart_expire hrun
  refine ⟨hkeeps.1.stored, hkeeps.1.cached, fun request m hreturned => ?_⟩
  exact (hkeeps.2 _ hreturned).ret m rfl

/-- Two requests for one fund, call by call: both fetch it. -/
def twoRequests : List (Turns.Action FundRequest Str) :=
  let request : FundRequest := ({ failingOutcomes with putObject := true }, fundModel)
  [.start request, .start request, .turn 0, .turn 1, .turn 1, .turn 0, .turn 0, .turn 1, .turn 1,
    .turn 0]

theorem funds_apart_two_requests :
    ∃ x : FundRequests Unit, Runs.run requestsStep ⟨.empty, []⟩ twoRequests = some x ∧
      stored x.state "fund_us_aaaxc".toList = some "Not Found".toList ∧
      Provided (.start · ∈ twoRequests) "fund_us_aaaxc".toList "Not Found".toList := by
  have hrun : Runs.run requestsStep ⟨(.empty : World Unit), []⟩ twoRequests = some _ := rfl
  refine ⟨_, hrun, by decide, ?_⟩
  rcases (funds_apart hrun).1 "fund_us_aaaxc".toList "Not Found".toList (by decide) with
    hbefore | hprovided
  · cases hbefore
  · exact hprovided

/-! ## URLs with their objects behind them -/

/-- Every URL that is cached has its object behind it. -/
def AllBacked (w : World β) : Prop := ∀ id, cached w id ≠ none → stored w id ≠ none

/-- A URL that is cached without its object has not been cached by this step,
and no object is gone. -/
structure Kept (w w' : World β) : Prop where
  backed : AllBacked w → AllBacked w'
  stored : ∀ id, stored w id ≠ none → stored w' id ≠ none

instance : Std.Refl (Kept (β := β)) := ⟨fun _ => ⟨fun h => h, fun _ h => h⟩⟩

instance : IsTrans (World β) Kept :=
  ⟨fun _ _ _ h h' => ⟨fun hw => h'.backed (h.backed hw), fun id hid => h'.stored id (h.stored id hid)⟩⟩

/-- A response arrives, is not put, and its URL is cached all the same. -/
def Unput (id : Str) : Prop :=
  o.redisGet = none ∧ o.redisSet = none ∧ o.putObject = false ∧
    ∃ code status body, convertMutualFundSravzIDToCode id = .ok code ∧
      response o code = some (status, body)

section Backing

variable {o} {w : World β} {id : Str} {m : PreSignedUrlModel}

theorem stored_of_afterPut (body : Str) {id' : Str} (h : stored w id' ≠ none) :
    stored (afterPut o w id body) id' ≠ none := by
  by_cases hid : id' = id
  · subst hid
    rw [stored_afterPut]
    split
    · exact Option.some_ne_none body
    · exact h
  · rw [stored_afterPut_of_ne body hid]
    exact h

theorem kept_afterPut (body : Str) : Kept w (afterPut o w id body) := by
  refine ⟨fun hbacked id' hcached => ?_, fun _ => stored_of_afterPut body⟩
  rw [cached_afterPut] at hcached
  exact stored_of_afterPut body (hbacked id' hcached)

/-- A URL may be cached where its object is. -/
theorem kept_afterSet (h : stored w id ≠ none) : Kept w (afterSet o w id) := by
  refine ⟨fun hbacked id' hcached => ?_, fun _ hid => hid⟩
  by_cases hid : id' = id
  · subst hid
    exact h
  · rw [cached_afterSet_of_ne hid] at hcached
    exact hbacked id' hcached

theorem kept_expire (key : Str) (w : World β) : Kept w (expire key w) := by
  refine ⟨fun hbacked id hcached => ?_, fun _ hid => hid⟩
  obtain ⟨url, hurl⟩ := Option.ne_none_iff_exists'.mp hcached
  refine hbacked id ?_
  rw [cached_of_expire hurl]
  exact Option.some_ne_none url

/-- What is put is there, unless it is not put. -/
theorem stored_afterPut_of_not_unput (h : ¬ Unput o id) {code body : Str} {status : Nat}
    (hget : o.redisGet = none) (hset : o.redisSet = none)
    (hcode : convertMutualFundSravzIDToCode id = .ok code)
    (hresponse : response o code = some (status, body)) :
    stored (afterPut o w id body) id ≠ none := by
  rw [stored_afterPut]
  cases hput : o.putObject with
  | true => exact Option.some_ne_none body
  | false => exact absurd ⟨hget, hset, hput, code, status, body, hcode, hresponse⟩ h

theorem keeps_backed {w₀ : World β} (h : ¬ Unput o m.sravzid) (hbacked : AllBacked w₀)
    (hw : Kept w₀ w) :
    Keeps Kept (fun r w' => (∃ m', r = .ok m') → stored w' m.sravzid ≠ none) (getTurns o m) w := by
  refine keeps_get (B := fun w' => o.redisGet = none → o.redisSet = none →
    stored w' m.sravzid ≠ none) hw ?_ (fun _ _ _ ⟨_, hok⟩ => nomatch hok) ?_ ?_ ?_ ?_
  · intro w' url hw' hurl w'' hw'' _
    have hcached : cached w' m.sravzid ≠ none := by
      rw [hurl]
      exact Option.some_ne_none url
    exact hw''.stored _ (hw'.backed hbacked _ hcached)
  · exact fun _ _ hfound _ _ => hfound.2
  · intro w' code status body _ hcode hresponse
    exact ⟨kept_afterPut body, fun hget hset =>
      stored_afterPut_of_not_unput h hget hset hcode hresponse⟩
  · exact fun w' w'' hready hw'' hget hset => hw''.stored _ (hready hget hset)
  · intro hget hset w' _ hready
    have hthere : stored (afterSet o w' m.sravzid) m.sravzid ≠ none := hready hget hset
    exact ⟨kept_afterSet (hready hget hset), fun w'' hw'' _ => hw''.stored _ hthere⟩

/-- Where nothing is stored, a response that is not put leaves a URL without
its object. -/
theorem get_of_unput (h : Unput o m.sravzid) :
    Eff.run (get o m) (.empty : World β) =
      (.ok (m.setUrl (o.presign fundamentalsBucketName (fileLocation m.sravzid))),
        afterSet o .empty m.sravzid) := by
  obtain ⟨hget, hset, hput, code, status, body, hcode, hresponse⟩ := h
  have hgot := got o (.empty : World β) m
  generalize Eff.run (get o m) (.empty : World β) = result at hgot ⊢
  cases hgot with
  | redisThrows h => cases hget.symm.trans h
  | hit _ hurl => cases hurl
  | stopped _ _ hchecked =>
      cases hchecked with
      | missing _ hfetched =>
          cases hfetched with
          | invalid h => cases hcode.symm.trans h
          | noResponse h hnone =>
              cases hcode.symm.trans h
              cases hresponse.symm.trans hnone
  | setThrows _ _ _ h => cases hset.symm.trans h
  | returned _ _ hchecked _ =>
      cases hchecked with
      | found hfound => exact absurd rfl hfound.2
      | missing _ hfetched =>
          cases hfetched with
          | response _ _ =>
              rw [afterPut, hput]
              rfl

end Backing

/-- **Whatever was there, if every URL that was cached had its object behind
it: in every run of requests that may meet the outcomes `A`, every URL that is
cached, or returned, has its object behind it, if and only if none of `A` has a
response that is not put and whose URL is cached.** -/
theorem urls_backed_in_runs_iff (A : Outcomes → Prop) :
    (∀ (w₀ : World β) as x, AllBacked w₀ → (∀ request, .start request ∈ as → A request.1) →
        Runs.run requestsStep ⟨w₀, []⟩ as = some x →
        AllBacked x.state ∧
          ∀ request m, (request, .ret (.ok m)) ∈ x.started →
            stored x.state request.2.sravzid ≠ none) ↔
      ∀ o, A o → ∀ id, ¬ Unput o id := by
  constructor
  · intro h o hA id hunput
    have hsample : ∃ m : PreSignedUrlModel, m.sravzid = id :=
      ⟨{ (Model.ofParams fun _ => none : PreSignedUrlModel) with sravzid := id }, rfl⟩
    obtain ⟨m, rfl⟩ := hsample
    obtain ⟨as, hturns, hrun⟩ := Turns.run_alone
      (fun request : FundRequest => getTurns request.1 request.2) expire (o, m) (getTurns o m)
      (.empty : World β)
    rw [cuts_get o m .empty, get_of_unput hunput] at hrun
    have hstarts : ∀ request, .start request ∈ .start (o, m) :: as → A request.1 := by
      intro request hmem
      rcases List.mem_cons.mp hmem with hfirst | hmem
      · cases hfirst
        exact hA
      · cases hturns _ hmem
    have hnothing : AllBacked (.empty : World β) := fun _ hcached => absurd rfl hcached
    have hbacked := (h .empty _ _ hnothing hstarts ((Runs.run_cons_of_step rfl as).trans hrun)).1
    refine hbacked m.sravzid ?_ rfl
    rw [cached_afterSet]
    exact Option.some_ne_none _
  · intro h w₀ as x hbacked hA hrun
    have hkeeps := Turns.run_keeps (R := Kept)
      (Q := fun request r w => (∃ m', r = .ok m') → stored w request.2.sravzid ≠ none)
      (fun _ ht => absurd ht List.not_mem_nil)
      (fun request hstart w hw => keeps_backed (h _ (hA request hstart) _) hbacked hw)
      kept_expire hrun
    exact ⟨hkeeps.1.backed hbacked, fun request m hreturned =>
      (hkeeps.2 _ hreturned).ret ⟨m, rfl⟩⟩

end SravzBackend.FundamentalsController
