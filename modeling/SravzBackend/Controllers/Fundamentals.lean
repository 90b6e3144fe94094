/-
# `Controllers.Fundamentals` — a URL for the data of a fund

`FundamentalsController::get` answers with a presigned URL of the S3 object of
a fund.  The URL is cached in Redis for a day; where it is not there, the
object is looked for, and where that is not there either, its content is
fetched from the data provider and put.  The status of the provider's response
and the answer of `putObject` are not looked at.

`url_backed_iff`: for every content of Redis and S3 and every outcome of the
calls, exactly when a URL that is returned has its object behind it, with what
a successful response said if this call fetched it, and a call that fails
throws and leaves Redis and S3 alone.
-/
import SravzBackend.Models
import SravzBackend.Services.Stores
import SravzBackend.Utils

namespace SravzBackend.FundamentalsController

open Services

variable {β : Type} (o : Outcomes)

def fundamentalsBucketName : Str := "sravz-data".toList

def fundamentalsPrefix : Str := "/mutual_funds/fundamentals/".toList

/-- 24 hours. -/
def keyExpiryInSeconds : Nat := 86400

/-- Where the data of a fund is, in Redis as in S3. -/
def fileLocation (sravzID : Str) : Str := fundamentalsPrefix ++ sravzID ++ ".json".toList

/-- The target a code is fetched from. -/
def eodTarget (apiKey code : Str) : Str :=
  "/api/eod/".toList ++ code ++ "?api_token=".toList ++ apiKey ++ "&order=d&fmt=json".toList

/-- `FetchDataAndSaveToS3` -/
def fetchDataAndSaveToS3 (sravzID completeFileLocation : Str) : Call β Unit := do
  let code ← Call.ofExcept id (convertMutualFundSravzIDToCode sravzID)
  let response ← httpGetAndWait o (eodTarget o.apiKey code)
  let _ ← putObject o fundamentalsBucketName completeFileLocation response

/-- `CheckAndFetchData` -/
def checkAndFetchData (sravzID completeFileLocation : Str) : Call β Unit := do
  if ← objectExists o fundamentalsBucketName completeFileLocation then
    return ()
  else
    fetchDataAndSaveToS3 o sravzID completeFileLocation

/-- `FundamentalsController::get` -/
def get (preSignedUrlModel : PreSignedUrlModel) : Call β PreSignedUrlModel := do
  let completeFileLocation := fileLocation preSignedUrlModel.sravzid
  match ← redisGet o completeFileLocation with
  | some redisPresignedURL => return preSignedUrlModel.setUrl redisPresignedURL
  | none =>
      checkAndFetchData o preSignedUrlModel.sravzid completeFileLocation
      let preSignedURL := o.presign fundamentalsBucketName completeFileLocation
      redisSetWithExpiry o completeFileLocation preSignedURL keyExpiryInSeconds
      return preSignedUrlModel.setUrl preSignedURL

/-- `validate_request` -/
def validateRequest (preSignedUrlModel : PreSignedUrlModel) : PreSignedUrlModel :=
  Model.setParam preSignedUrlModel "sravzid".toList PreSignedUrlModel.setSravzid

/-- The parameters asked for, and the fields they are for. -/
def asked : List (Str × (PreSignedUrlModel → Str)) := [("sravzid".toList, (·.sravzid))]

/-- The base of a validated model: its status is as it was. -/
theorem base_validateRequest (params : Params) :
    Model.base (validateRequest (Model.ofParams params)) =
      { BaseModel.ofParams params with
        missingParams := params.absent (asked.map Prod.fst) } := by
  rw [validateRequest, Model.base_setParam PreSignedUrlModel.setSravzid fun _ _ => rfl,
    Model.base_ofParams]
  simp only [asked, List.map_cons, List.map_nil, Params.absent_cons, Params.absent_nil,
    List.append_nil]
  rfl

theorem fields_validateRequest {params : Params} (h : ∀ field ∈ asked, params field.1 ≠ none) :
    ∀ field ∈ asked,
      params field.1 = some (field.2 (validateRequest (Model.ofParams params))) := by
  obtain ⟨sravzid, hsravzid⟩ :=
    Option.ne_none_iff_exists'.mp (h ("sravzid".toList, (·.sravzid)) (by simp [asked]))
  have hvalid : validateRequest (Model.ofParams params) =
      (Model.ofParams params : PreSignedUrlModel).setSravzid sravzid :=
    Model.setParam_of_some hsravzid
  intro field hfield
  rw [List.mem_singleton.mp hfield, hvalid]
  exact hsravzid

/-! ## What a call does -/

/-- The object of a fund. -/
def stored (w : World β) (sravzID : Str) : Option Str :=
  w.s3 fundamentalsBucketName (fileLocation sravzID)

/-- The cached URL of a fund. -/
def cached (w : World β) (sravzID : Str) : Option Str :=
  (w.redis (fileLocation sravzID)).map Prod.fst

/-- The provider's response to the request for a fund. -/
def response (code : Str) : Option (Nat × Str) :=
  (o.exchange (eodTarget o.apiKey code)).response

/-- What is left of S3 when `body` has been put, or has not. -/
def afterPut (w : World β) (sravzID body : Str) : World β :=
  if o.putObject then w.putObject fundamentalsBucketName (fileLocation sravzID) body else w

/-- What is left of Redis when the URL has been set. -/
def afterSet (w : World β) (sravzID : Str) : World β :=
  { w with
    redis := Function.update w.redis (fileLocation sravzID)
      (some (o.presign fundamentalsBucketName (fileLocation sravzID), keyExpiryInSeconds)) }

/-- The ways a fetch may end. -/
inductive Fetched (w : World β) (sravzID : Str) : Except Stop Unit × World β → Prop where
  | invalid {what} (h : convertMutualFundSravzIDToCode sravzID = .error what) :
      Fetched w sravzID (.error (.thrown what), w)
  | noResponse {code} (h : convertMutualFundSravzIDToCode sravzID = .ok code)
      (hresponse : response o code = none) : Fetched w sravzID (.error .blocked, w)
  | response {code status body} (h : convertMutualFundSravzIDToCode sravzID = .ok code)
      (hresponse : response o code = some (status, body)) :
      Fetched w sravzID (.ok (), afterPut o w sravzID body)

theorem fetched (w : World β) (sravzID : Str) :
    Fetched o w sravzID (Eff.run (fetchDataAndSaveToS3 o sravzID (fileLocation sravzID)) w) := by
  unfold fetchDataAndSaveToS3
  cases hcode : convertMutualFundSravzIDToCode sravzID with
  | error what => exact .invalid hcode
  | ok code =>
      show Fetched o w sravzID (Eff.run (do
        let response ← httpGetAndWait o (eodTarget o.apiKey code)
        let _ ← putObject o fundamentalsBucketName (fileLocation sravzID) response) w)
      unfold httpGetAndWait Exchange.httpGet
      cases hresponse : (o.exchange (eodTarget o.apiKey code)).response with
      | none => exact .noResponse hcode hresponse
      | some r =>
          obtain ⟨status, body⟩ := r
          have hput : Eff.run (do
              let _ ← putObject o fundamentalsBucketName (fileLocation sravzID) body) w =
              (.ok (), afterPut o w sravzID body) := by
            unfold putObject afterPut
            cases o.putObject <;> rfl
          exact hput ▸ .response hcode hresponse

/-- S3 says that the object of a fund is there. -/
def Found (w : World β) (sravzID : Str) : Prop :=
  o.headObject = true ∧ stored w sravzID ≠ none

/-- The ways `CheckAndFetchData` may end. -/
inductive Checked (w : World β) (sravzID : Str) : Except Stop Unit × World β → Prop where
  | found (h : Found o w sravzID) : Checked w sravzID (.ok (), w)
  | missing {r} (h : ¬ Found o w sravzID) (hr : Fetched o w sravzID r) : Checked w sravzID r

theorem checked (w : World β) (sravzID : Str) :
    Checked o w sravzID (Eff.run (checkAndFetchData o sravzID (fileLocation sravzID)) w) := by
  have hexists : Eff.run (objectExists o fundamentalsBucketName (fileLocation sravzID)) w =
      (.ok (o.headObject && (stored w sravzID).isSome), w) := rfl
  rw [checkAndFetchData, Eff.run_bind_of_ok hexists]
  by_cases h : Found o w sravzID
  · obtain ⟨hhead, hstored⟩ := h
    rw [hhead, Option.isSome_iff_ne_none.mpr hstored]
    exact .found ⟨hhead, hstored⟩
  · have hno : (o.headObject && (stored w sravzID).isSome) = false := by
      rw [← Bool.not_eq_true, Bool.and_eq_true, Option.isSome_iff_ne_none]
      exact h
    rw [hno]
    exact .missing h (fetched o w sravzID)

/-- The ways `get` may end. -/
inductive Got (w : World β) (m : PreSignedUrlModel) :
    Except Stop PreSignedUrlModel × World β → Prop where
  | redisThrows {what} (h : o.redisGet = some what) : Got w m (.error (.thrown what), w)
  | hit {url} (h : o.redisGet = none) (hurl : cached w m.sravzid = some url) :
      Got w m (.ok (m.setUrl url), w)
  | stopped {stop} {w' : World β} (h : o.redisGet = none) (hmiss : cached w m.sravzid = none)
      (hchecked : Checked o w m.sravzid (.error stop, w')) : Got w m (.error stop, w')
  | setThrows {what} {w' : World β} (h : o.redisGet = none) (hmiss : cached w m.sravzid = none)
      (hchecked : Checked o w m.sravzid (.ok (), w')) (hset : o.redisSet = some what) :
      Got w m (.error (.thrown what), w')
  | returned {w' : World β} (h : o.redisGet = none) (hmiss : cached w m.sravzid = none)
      (hchecked : Checked o w m.sravzid (.ok (), w')) (hset : o.redisSet = none) :
      Got w m
        (.ok (m.setUrl (o.presign fundamentalsBucketName (fileLocation m.sravzid))),
          afterSet o w' m.sravzid)

theorem got (w : World β) (m : PreSignedUrlModel) : Got o w m (Eff.run (get o m) w) := by
  cases hget : o.redisGet with
  | some what =>
      have hredis : Eff.run (redisGet o (fileLocation m.sravzid)) w =
          (.error (.thrown what), w) := by
        simp only [redisGet, hget, Eff.run_throw]
      rw [get, Eff.run_bind_of_error hredis]
      exact .redisThrows hget
  | none =>
      have hredis : Eff.run (redisGet o (fileLocation m.sravzid)) w =
          (.ok (cached w m.sravzid), w) := by
        simp only [redisGet, hget]
        rfl
      rw [get, Eff.run_bind_of_ok hredis]
      cases hcached : cached w m.sravzid with
      | some url => exact .hit hget hcached
      | none =>
          have hchecked := checked o w m.sravzid
          dsimp only
          rcases hcheck : Eff.run (checkAndFetchData o m.sravzid (fileLocation m.sravzid)) w
            with ⟨stop | ⟨⟩, w'⟩
          · rw [hcheck] at hchecked
            rw [Eff.run_bind_of_error hcheck]
            exact .stopped hget hcached hchecked
          · rw [hcheck] at hchecked
            rw [Eff.run_bind_of_ok hcheck]
            cases hset : o.redisSet with
            | some what =>
                simp only [redisSetWithExpiry, hset]
                exact .setThrows hget hcached hchecked hset
            | none =>
                simp only [redisSetWithExpiry, hset]
                exact .returned hget hcached hchecked hset

/-! ## A URL with its object behind it -/

/-- A 2xx status. -/
def Success (status : Nat) : Prop := 200 ≤ status ∧ status < 300

instance (status : Nat) : Decidable (Success status) :=
  inferInstanceAs (Decidable (_ ∧ _))

/-- The call fetches: the URL is not cached, and the object is not found. -/
def Fetches (w : World β) (sravzID : Str) : Prop :=
  cached w sravzID = none ∧ ¬ Found o w sravzID

/-- The URL that is returned is cached and has its object behind it, with what
a successful response said if it was fetched; what fails throws, and leaves
everything alone. -/
def Backed (w : World β) (sravzID : Str) : Except Stop PreSignedUrlModel × World β → Prop
  | (.ok m, w') =>
      cached w' sravzID = some m.url ∧
        ∃ content, stored w' sravzID = some content ∧
          (Fetches o w sravzID →
            ∃ code status, convertMutualFundSravzIDToCode sravzID = .ok code ∧
              response o code = some (status, content) ∧ Success status)
  | (.error (.thrown _), w') => w' = w
  | (.error .blocked, _) => False

/-- A response arrives and does no harm: if its URL is going to be cached it
is a successful one, and its body is put or already there; if not, putting it
changes nothing. -/
def Harmless (w : World β) (sravzID : Str) : Prop :=
  ∃ code status body, convertMutualFundSravzIDToCode sravzID = .ok code ∧
    response o code = some (status, body) ∧
    if o.redisSet = none then
      Success status ∧ (o.putObject = true ∨ stored w sravzID = some body)
    else (o.putObject = true → stored w sravzID = some body)

/-- When the call is as it should be. -/
def Sound (w : World β) (sravzID : Str) : Prop :=
  o.redisGet ≠ none ∨ (cached w sravzID ≠ none ∧ stored w sravzID ≠ none) ∨
    (cached w sravzID = none ∧
      (Found o w sravzID ∨ (∃ what, convertMutualFundSravzIDToCode sravzID = .error what) ∨
        Harmless o w sravzID))

section Backed

variable {o} {w : World β} {sravzID : Str}

theorem stored_afterPut (body : Str) :
    stored (afterPut o w sravzID body) sravzID =
      if o.putObject then some body else stored w sravzID := by
  unfold afterPut stored
  split
  · exact World.putObject_s3_self ..
  · rfl

theorem afterPut_eq_self_iff {body : Str} :
    afterPut o w sravzID body = w ↔ (o.putObject = true → stored w sravzID = some body) := by
  unfold afterPut
  split
  · next hput => exact World.putObject_eq_self_iff.trans ⟨fun h _ => h, fun h => h hput⟩
  · next hput => exact iff_of_true rfl fun h => absurd h hput

theorem cached_afterSet (w : World β) (sravzID : Str) :
    cached (afterSet o w sravzID) sravzID =
      some (o.presign fundamentalsBucketName (fileLocation sravzID)) := by
  simp [cached, afterSet]

/-- With nothing cached, it is what the check does that counts. -/
theorem sound_of_miss (hget : o.redisGet = none) (hmiss : cached w sravzID = none) :
    Sound o w sravzID ↔
      Found o w sravzID ∨ (∃ what, convertMutualFundSravzIDToCode sravzID = .error what) ∨
        Harmless o w sravzID := by
  simp [Sound, hget, hmiss]

/-- Without a response to fetch, nothing does. -/
theorem not_sound_of_noResponse {code : Str} (hget : o.redisGet = none)
    (hmiss : cached w sravzID = none) (hfound : ¬ Found o w sravzID)
    (hcode : convertMutualFundSravzIDToCode sravzID = .ok code)
    (hresponse : response o code = none) : ¬ Sound o w sravzID := by
  rw [sound_of_miss hget hmiss]
  rintro (hfound' | ⟨what, hwhat⟩ | ⟨code', status, body, hcode', hresponse', _⟩)
  · exact hfound hfound'
  · rw [hcode] at hwhat
    cases hwhat
  · cases hcode.symm.trans hcode'
    rw [hresponse] at hresponse'
    cases hresponse'

/-- With a response to fetch, it is what becomes of it that counts. -/
theorem sound_of_response {code body : Str} {status : Nat} (hget : o.redisGet = none)
    (hmiss : cached w sravzID = none) (hfound : ¬ Found o w sravzID)
    (hcode : convertMutualFundSravzIDToCode sravzID = .ok code)
    (hresponse : response o code = some (status, body)) :
    Sound o w sravzID ↔
      if o.redisSet = none then
        Success status ∧ (o.putObject = true ∨ stored w sravzID = some body)
      else (o.putObject = true → stored w sravzID = some body) := by
  have hvalid : ¬ ∃ what, convertMutualFundSravzIDToCode sravzID = .error what := by
    rintro ⟨what, hwhat⟩
    rw [hcode] at hwhat
    cases hwhat
  rw [sound_of_miss hget hmiss, or_iff_right hfound, or_iff_right hvalid]
  constructor
  · rintro ⟨code', status', body', hcode', hresponse', h⟩
    cases hcode.symm.trans hcode'
    cases hresponse.symm.trans hresponse'
    exact h
  · exact fun h => ⟨code, status, body, hcode, hresponse, h⟩

/-- What is behind a cached URL that is returned is the object, if there is one. -/
theorem backed_of_hit {m : PreSignedUrlModel} {url : Str} (hurl : cached w sravzID = some url) :
    Backed o w sravzID (.ok (m.setUrl url), w) ↔ stored w sravzID ≠ none := by
  have hno : ¬ Fetches o w sravzID := by
    rintro ⟨hmiss, _⟩
    rw [hurl] at hmiss
    cases hmiss
  rw [Option.ne_none_iff_exists']
  constructor
  · rintro ⟨_, content, hcontent, _⟩
    exact ⟨content, hcontent⟩
  · rintro ⟨content, hcontent⟩
    exact ⟨hurl, content, hcontent, fun h => absurd h hno⟩

/-- What a fetch that is cached has put is behind the URL if the response was
a successful one and was put, or was there. -/
theorem backed_of_response {code body : Str} {status : Nat} {m : PreSignedUrlModel}
    (hmiss : cached w sravzID = none) (hfound : ¬ Found o w sravzID)
    (hcode : convertMutualFundSravzIDToCode sravzID = .ok code)
    (hresponse : response o code = some (status, body)) :
    Backed o w sravzID
        (.ok (m.setUrl (o.presign fundamentalsBucketName (fileLocation sravzID))),
          afterSet o (afterPut o w sravzID body) sravzID) ↔
      Success status ∧ (o.putObject = true ∨ stored w sravzID = some body) := by
  have hstored : stored (afterSet o (afterPut o w sravzID body) sravzID) sravzID = some body ↔
      o.putObject = true ∨ stored w sravzID = some body := by
    show stored (afterPut o w sravzID body) sravzID = some body ↔ _
    rw [stored_afterPut]
    by_cases hput : o.putObject = true <;> simp [hput]
  constructor
  · rintro ⟨_, content, hcontent, hfetched⟩
    obtain ⟨code', status', hcode', hresponse', hsuccess⟩ := hfetched ⟨hmiss, hfound⟩
    cases hcode.symm.trans hcode'
    cases hresponse.symm.trans hresponse'
    exact ⟨hsuccess, hstored.mp hcontent⟩
  · rintro ⟨hsuccess, hput⟩
    exact ⟨cached_afterSet _ sravzID, body, hstored.mpr hput,
      fun _ => ⟨code, status, hcode, hresponse, hsuccess⟩⟩

end Backed

/-- **For every content of Redis and S3 and every outcome of the calls, a URL
that is returned has its object behind it and a failing call throws and
changes nothing, if and only if Redis cannot be read, or the URL is cached and
the object there, or S3 finds the object, or the id is no fund's, or a response
arrives that does no harm.** -/
theorem url_backed_iff (w : World β) (m : PreSignedUrlModel) :
    Backed o w m.sravzid (Eff.run (get o m) w) ↔ Sound o w m.sravzid := by
  have hgot := got o w m
  generalize Eff.run (get o m) w = result at hgot ⊢
  cases hgot with
  | redisThrows h =>
      refine iff_of_true rfl (.inl ?_)
      rw [h]
      exact Option.some_ne_none _
  | @hit url h hurl =>
      have hcached : cached w m.sravzid ≠ none := by
        rw [hurl]
        exact Option.some_ne_none url
      rw [backed_of_hit hurl, Sound, or_iff_right (not_not.mpr h), and_iff_right hcached]
      exact (or_iff_left fun hmiss => hcached hmiss.1).symm
  | stopped h hmiss hchecked =>
      cases hchecked with
      | missing hfound hfetched =>
          cases hfetched with
          | invalid hcode =>
              exact iff_of_true rfl ((sound_of_miss h hmiss).mpr (.inr (.inl ⟨_, hcode⟩)))
          | noResponse hcode hresponse =>
              exact iff_of_false not_false (not_sound_of_noResponse h hmiss hfound hcode hresponse)
  | setThrows h hmiss hchecked hset =>
      cases hchecked with
      | found hfound => exact iff_of_true rfl ((sound_of_miss h hmiss).mpr (.inl hfound))
      | missing hfound hfetched =>
          cases hfetched with
          | response hcode hresponse =>
              rw [sound_of_response h hmiss hfound hcode hresponse, hset, if_neg nofun]
              exact afterPut_eq_self_iff
  | returned h hmiss hchecked hset =>
      cases hchecked with
      | found hfound =>
          obtain ⟨content, hcontent⟩ := Option.ne_none_iff_exists'.mp hfound.2
          refine iff_of_true ?_ ((sound_of_miss h hmiss).mpr (.inl hfound))
          exact ⟨cached_afterSet w m.sravzid, content, hcontent, fun hno => absurd hfound hno.2⟩
      | missing hfound hfetched =>
          cases hfetched with
          | response hcode hresponse =>
              rw [sound_of_response h hmiss hfound hcode hresponse, if_pos hset]
              exact backed_of_response hmiss hfound hcode hresponse

/-- Once a URL is cached, nothing is looked at any more, whatever is behind it. -/
theorem get_of_cached {w : World β} {m : PreSignedUrlModel} {url : Str}
    (hget : o.redisGet = none) (hurl : cached w m.sravzid = some url) :
    Eff.run (get o m) w = (.ok (m.setUrl url), w) := by
  have hgot := got o w m
  generalize Eff.run (get o m) w = result at hgot ⊢
  cases hgot with
  | redisThrows h => cases hget.symm.trans h
  | hit h hurl' =>
      cases hurl.symm.trans hurl'
      rfl
  | stopped h hmiss hchecked => cases hurl.symm.trans hmiss
  | setThrows h hmiss hchecked hset => cases hurl.symm.trans hmiss
  | returned h hmiss hchecked hset => cases hurl.symm.trans hmiss

/-- The provider answers with an error page, and S3 does not take it. -/
def failingOutcomes : Outcomes where
  redisGet := none
  redisSet := none
  headObject := true
  putObject := false
  presign bucket key := "https://".toList ++ bucket ++ key
  exchange _ := ⟨false, fun _ => false, 404, "Not Found".toList⟩
  apiKey := "demo".toList

def fundModel : PreSignedUrlModel :=
  { (Model.ofParams fun _ => none : PreSignedUrlModel) with sravzid := "fund_us_aaaxc".toList }

/-- Nothing is cached and nothing stored; the URL of an object that is not
there is returned and cached, and of one that holds an error page if S3 takes
it. -/
theorem unbacked_url_cached :
    (∃ m w', Eff.run (get failingOutcomes fundModel) (World.empty : World Unit) = (.ok m, w') ∧
        cached w' "fund_us_aaaxc".toList = some m.url ∧
        stored w' "fund_us_aaaxc".toList = none ∧
        ¬ Backed failingOutcomes World.empty "fund_us_aaaxc".toList (.ok m, w')) ∧
      ∃ m w', Eff.run (get { failingOutcomes with putObject := true } fundModel)
          (World.empty : World Unit) = (.ok m, w') ∧
        cached w' "fund_us_aaaxc".toList = some m.url ∧
        stored w' "fund_us_aaaxc".toList = some "Not Found".toList ∧
        ¬ Backed { failingOutcomes with putObject := true } World.empty "fund_us_aaaxc".toList
          (.ok m, w') := by
  refine ⟨⟨_, _, rfl, by decide, by decide, ?_⟩, _, _, rfl, by decide, by decide, ?_⟩
  · rintro ⟨_, content, hcontent, _⟩
    cases hcontent
  · rintro ⟨_, content, _, hfetched⟩
    obtain ⟨code, status, _, hresponse, hsuccess⟩ := hfetched ⟨rfl, fun hfound => hfound.2 rfl⟩
    cases hresponse
    exact absurd hsuccess (show ¬ Success 404 by decide)

end SravzBackend.FundamentalsController
