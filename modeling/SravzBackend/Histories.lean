/-
# `Histories` — what the requests leave behind

A request changes what is kept outside the process in few places: a `POST`,
`PUT` or `DELETE` adds a write to the database's log, a request for a fund
changes what Redis and S3 hold at the location of that fund, and one to
`/duckdb` the tables of the process.

`writes_in_history`: after any requests, of any kind and with any outcome of
the calls they make, the log of the database has grown by the writes that were
asked for and that the driver took, in the order of the requests; and whatever
else differs in Redis or S3 is at the location of a fund that was asked for, or
is a key that has expired.
-/
import SravzBackend.Router
import SravzBackend.Services.S3Select

namespace SravzBackend.Router

open Services
open FundamentalsController (fileLocation fundamentalsBucketName)
open HttpSession (Verb)

variable {β : Type}

/-- `AWSS3Controller::get` is `S3Client::s3select`. -/
def Clients.Selects (c : Clients β) : Prop :=
  ∃ selectObjectContent, c.s3select = fun bucket key column inClause =>
    pure (S3Client.s3select selectObjectContent bucket key column inClause)

/-- The fund whose data a request asks for; without the parameter it is the
one with the empty id. -/
def fundAsked (c : Clients β) (verb : Verb) (uri : Str) : Option Str :=
  match verb, c.parseUri uri with
  | .get, .ok ⟨service :: _, params⟩ =>
      if service = "fundamentals".toList then
        some ((paramsMap params "sravzid".toList).getD [])
      else none
  | _, _ => none

/-- The write a request has made, with whether it was acknowledged. -/
def madeWrite (c : Clients β) (verb : Verb) (uri body : Str) : Option (MongoWrite β × Bool) :=
  (requested c verb uri body).bind fun write =>
    match c.mongo.acquire, c.mongo.execute write with
    | .ok _, .ok r => some (write, r.isSome)
    | _, _ => none

/-! ## What a request that reads may change -/

/-- Nothing is written to the database, and nothing but the data of the fund
that was asked for changes in Redis and S3. -/
structure Reads (asked : Option Str) (w w' : World β) : Prop where
  redis : ∀ key, (∀ id, asked = some id → key ≠ fileLocation id) → w'.redis key = w.redis key
  s3 : ∀ bucket key,
    (∀ id, asked = some id → ¬ (bucket = fundamentalsBucketName ∧ key = fileLocation id)) →
      w'.s3 bucket key = w.s3 bucket key
  mongo : w'.mongo = w.mongo

instance (asked : Option Str) : Std.Refl (Reads (β := β) asked) :=
  ⟨fun _ => ⟨fun _ _ => rfl, fun _ _ _ => rfl, rfl⟩⟩

instance (asked : Option Str) : IsTrans (World β) (Reads asked) :=
  ⟨fun _ _ _ h h' => ⟨fun key hkey => (h'.redis key hkey).trans (h.redis key hkey),
    fun bucket key hkey => (h'.s3 bucket key hkey).trans (h.s3 bucket key hkey),
    h'.mongo.trans h.mongo⟩⟩

section Moving

variable {R : World β → World β → Prop} {asked : Option Str}

theorem moves_ofExcept [Std.Refl R] {α ε : Type} (what : ε → Str) (r : Except ε α) :
    Eff.Moves R (Call.ofExcept what r : Call β α) := by
  cases r with
  | error e => exact .throw _
  | ok a => exact .pure a

theorem moves_redisGet [Std.Refl R] [IsTrans (World β) R] (o : Outcomes) (key : Str) :
    Eff.Moves R (redisGet o key : Call β (Option Str)) := by
  unfold redisGet
  cases o.redisGet with
  | some what => exact .throw _
  | none => exact Eff.Moves.get.bind fun w => .pure _

theorem moves_objectExists [Std.Refl R] [IsTrans (World β) R] (o : Outcomes) (bucket key : Str) :
    Eff.Moves R (objectExists o bucket key : Call β Bool) :=
  Eff.Moves.get.bind fun _ => .pure _

/-- A value is set at the location of the fund that was asked for. -/
theorem moves_redisSet (o : Outcomes) {id : Str} (h : asked = some id) (value : Str)
    (expiry : Nat) :
    Eff.Moves (Reads asked) (redisSetWithExpiry o (fileLocation id) value expiry : Call β Unit) := by
  unfold redisSetWithExpiry
  cases o.redisSet with
  | some what => exact .throw _
  | none =>
      refine .modify fun _ => ⟨fun key hkey => ?_, fun _ _ _ => rfl, rfl⟩
      exact Function.update_of_ne (hkey id h) ..

theorem moves_putObject (o : Outcomes) {id : Str} (h : asked = some id) (value : Str) :
    Eff.Moves (Reads asked)
      (putObject o fundamentalsBucketName (fileLocation id) value : Call β Bool) := by
  unfold putObject
  split
  · exact (Eff.Moves.modify fun _ => ⟨fun _ _ => rfl,
      fun _ _ hkey => World.putObject_s3_of_ne (hkey id h), rfl⟩).bind fun _ => .pure _
  · exact .pure _

theorem moves_fundamentals (o : Outcomes) {m : PreSignedUrlModel} (h : asked = some m.sravzid) :
    Eff.Moves (Reads asked) (FundamentalsController.get o m : Call β PreSignedUrlModel) := by
  refine (moves_redisGet o _).bind fun r => ?_
  cases r with
  | some url => exact .pure _
  | none =>
      have hfetch : Eff.Moves (Reads asked)
          (FundamentalsController.fetchDataAndSaveToS3 o m.sravzid (fileLocation m.sravzid) :
            Call β Unit) := by
        refine (moves_ofExcept id _).bind fun code => ?_
        refine Eff.Moves.bind ?_ fun response => (moves_putObject o h response).bind fun _ => .pure _
        unfold httpGetAndWait
        split
        · exact .pure _
        · exact .throw _
      have hcheck : Eff.Moves (Reads asked)
          (FundamentalsController.checkAndFetchData o m.sravzid (fileLocation m.sravzid) :
            Call β Unit) := by
        refine (moves_objectExists o _ _).bind fun found => ?_
        cases found with
        | true => exact .pure _
        | false => exact hfetch
      exact hcheck.bind fun _ => (moves_redisSet o h _ _).bind fun _ => .pure _

theorem moves_duckdb (e : Engine) (reached : Bool) (m : DuckDBModel) :
    Eff.Moves (Reads asked) (DuckDBController.get e reached m : Call β DuckDBModel) := by
  have hduckdb : ∀ (w : World β) tables, Reads asked w { w with duckdb := tables } :=
    fun _ _ => ⟨fun _ _ => rfl, fun _ _ _ => rfl, rfl⟩
  have hcreate : ∀ table, Eff.Moves (Reads asked)
      (DuckDBClient.createTableIfDoesNotExists e reached m.bucket m.key table : Call β Unit) := by
    intro table
    refine Eff.Moves.get.bind fun w => ?_
    split
    · split
      · exact .modify fun w => hduckdb w _
      · exact .pure _
    · exact .pure _
  refine Eff.Moves.bind ?_ fun rows => .pure _
  refine (hcreate _).bind fun _ => Eff.Moves.get.bind fun w => ?_
  exact (Eff.Moves.modify fun w => hduckdb w _).bind fun _ => moves_ofExcept id _

theorem moves_findOne [Std.Refl R] [IsTrans (World β) R] (d : MongoDriver β)
    (database collection text : Str) :
    Eff.Moves R (MongoClient.findOne d database collection text) := by
  refine (moves_ofExcept id _).bind fun _ => (moves_ofExcept id _).bind fun document => ?_
  refine (moves_ofExcept id _).bind fun found => ?_
  cases found <;> exact .pure _

theorem moves_routeToController [Std.Refl R] [IsTrans (World β) R] {M : Type} [Model M]
    (serialize : Json → Str) (validateRequest : M → M) {get : M → Call β M} (params : Params)
    (h : Eff.Moves R (get (validateRequest (Model.ofParams params)))) :
    Eff.Moves R (routeToController serialize validateRequest get params) := by
  unfold routeToController
  dsimp only
  split
  · exact .pure _
  · exact h.bind fun _ => .pure _

theorem sravzid_validateRequest (params : Params) :
    (FundamentalsController.validateRequest (Model.ofParams params)).sravzid =
      (params "sravzid".toList).getD [] := by
  unfold FundamentalsController.validateRequest
  cases hsravzid : params "sravzid".toList with
  | some v =>
      have hset : Model.setParam (Model.ofParams params) "sravzid".toList
          PreSignedUrlModel.setSravzid = PreSignedUrlModel.setSravzid v (Model.ofParams params) :=
        Model.setParam_of_some hsravzid
      rw [hset]
      rfl
  | none =>
      rw [Model.setParam_of_none hsravzid]
      rfl

theorem moves_routeGet {c : Clients β} (hselects : c.Selects) (uv : Url) (service : Str)
    (rest : List Str)
    (hasked : asked = if service = "fundamentals".toList then
      some ((paramsMap uv.params "sravzid".toList).getD []) else none) :
    Eff.Moves (Reads asked) (routeGet c uv service rest) := by
  unfold routeGet
  dsimp only
  split
  · split
    · exact .pure _
    · split
      · exact (moves_findOne _ _ _ _).bind fun _ => .pure _
      · exact .pure _
  · split
    · split
      · exact .pure _
      · split
        · obtain ⟨selectObjectContent, hselect⟩ := hselects
          rw [hselect]
          exact (Eff.Moves.pure _).bind fun _ => .pure _
        · exact .pure _
    · split
      · next hservice =>
          refine moves_routeToController _ _ _ (moves_fundamentals c.stores ?_)
          rw [hasked, if_pos hservice, sravzid_validateRequest]
      · split
        · exact moves_routeToController _ _ _ (moves_duckdb _ _ _)
        · exact .pure _

end Moving

/-! ## What one request changes -/

section Requests

variable {c : Clients β} {verb : Verb} {uri body : Str}

/-- What cannot be inserted is not asked for. -/
theorem requested_eq_none (h : NothingToInsert c verb uri body) :
    requested c verb uri body = none := by
  obtain ⟨rfl, hcollection, json, hjson, hno⟩ := h
  obtain ⟨collection, hcollection⟩ := Option.isSome_iff_exists.mp hcollection
  rw [requested, hcollection, Option.bind_some, requestedWrite, hjson]
  cases json with
  | array vs =>
      cases vs with
      | nil => rfl
      | cons v vs => exact absurd ⟨v, vs, rfl⟩ hno
  | _ => rfl

theorem madeWrite_of_not_taken (h : ∀ write, requested c verb uri body = some write →
    ∀ r, ¬ MongoClient.Taken c.mongo write r) : madeWrite c verb uri body = none := by
  rw [madeWrite]
  cases hwrite : requested c verb uri body with
  | none => rfl
  | some write =>
      rw [Option.bind_some]
      split
      · next r hacquire hexecute => exact absurd ⟨hacquire, hexecute⟩ (h write hwrite r)
      · rfl

/-- A branch that issues its write makes it, or nothing. -/
theorem run_of_issues {x : Call β (Nat × Str)} {Q : Nat × Str → Prop} (w : World β)
    (h : MongoClient.Issues c.mongo (requested c verb uri body) Q x) :
    (Eff.run (caught x) w).2 =
      { w with mongo := w.mongo ++ (madeWrite c verb uri body).toList } := by
  rcases h with ⟨hthrows, hnot⟩ | ⟨write, r, hwrite, htaken, hreturns⟩
  · obtain ⟨a, _, hrun⟩ := caught_of_throws hthrows w
    rw [hrun, madeWrite_of_not_taken hnot, Option.toList_none, List.append_nil]
  · obtain ⟨a, _, hrun⟩ := hreturns w
    rw [caught_of_ok hrun, madeWrite, hwrite, Option.bind_some, htaken.1, htaken.2]
    rfl

variable (c uri body)

theorem run_write (hverb : Writes verb) (w : World β) :
    (Eff.run (route c verb uri body) w).2 =
      { w with mongo := w.mongo ++ (madeWrite c verb uri body).toList } := by
  cases hcollection : collectionOf c uri with
  | none =>
      have hnone : requested c verb uri body = none := by rw [requested, hcollection]; rfl
      have hrefused : ∃ a, ¬ FundamentalsController.Success a.1 ∧
          Eff.run (route c verb uri body) w = (.ok a, w) := route_refused hverb hcollection w
      obtain ⟨a, _, hrun⟩ := hrefused
      rw [hrun, madeWrite, hnone, Option.bind_none, Option.toList_none, List.append_nil]
  | some collection =>
      have hrequested : requested c verb uri body =
          requestedWrite c.mongo verb collection body := by rw [requested, hcollection]; rfl
      rw [route_of_collection hverb hcollection]
      by_cases hnothing : NothingToInsert c verb uri body
      · have hmade : madeWrite c verb uri body = none :=
          madeWrite_of_not_taken fun write hwrite => by
            rw [requested_eq_none hnothing] at hwrite
            cases hwrite
        obtain ⟨rfl, _, json, hjson, hno⟩ := hnothing
        obtain ⟨text, _, hrun⟩ := MongoClient.insertMany_returns c.mongo hjson hno
          MongoController.database collection w
        have hbranch : Eff.run (writeBranch c body collection .post) w = (.ok (201, text), w) :=
          Eff.run_bind_of_ok hrun _
        rw [caught_of_ok hbranch, hmade, Option.toList_none, List.append_nil]
      · refine run_of_issues (Q := fun a => FundamentalsController.Success a.1) w ?_
        rw [hrequested]
        cases verb with
        | post => exact routePost_issues hnothing hcollection
        | put => exact routePut_issues
        | delete => exact routeDelete_issues
        | _ => exact absurd hverb not_false

variable {c} in
theorem run_get (hselects : c.Selects) (w : World β) :
    Reads (fundAsked c .get uri) w (Eff.run (route c .get uri body) w).2 := by
  suffices hmoves : Eff.Moves (Reads (fundAsked c .get uri)) (route c .get uri body) from hmoves w
  refine Eff.Moves.tryCatch ?_ fun stop => ?_
  · intro w
    rw [routeTry, Call.run_ofExcept_bind]
    cases hurl : c.parseUri uri with
    | error what => exact refl_of (Reads _) w
    | ok url =>
        obtain ⟨segments, params⟩ := url
        cases segments with
        | nil => exact refl_of (Reads _) w
        | cons service rest =>
            have hasked : fundAsked c .get uri =
                if service = "fundamentals".toList then
                  some ((paramsMap params "sravzid".toList).getD [])
                else none := by
              simp only [fundAsked, hurl]
            exact moves_routeGet hselects ⟨service :: rest, params⟩ service rest hasked w
  · cases stop with
    | thrown what => exact .pure _
    | blocked => exact .throw _

/-- Any other verb is refused. -/
theorem run_other (hget : verb ≠ .get) (hwrites : ¬ Writes verb) (w : World β) :
    (Eff.run (route c verb uri body) w).2 = w := by
  suffices hmoves : Eff.Moves Eq (route c verb uri body) from (hmoves w).symm
  refine Eff.Moves.tryCatch ?_ fun stop => ?_
  · intro w
    rw [routeTry, Call.run_ofExcept_bind]
    cases c.parseUri uri with
    | error what => rfl
    | ok url =>
        obtain ⟨segments, params⟩ := url
        cases segments with
        | nil => rfl
        | cons service rest =>
            cases verb with
            | get => exact absurd rfl hget
            | post => exact absurd trivial hwrites
            | put => exact absurd trivial hwrites
            | delete => exact absurd trivial hwrites
            | _ => rfl
  · cases stop with
    | thrown what => exact .pure _
    | blocked => exact .throw _

theorem madeWrite_of_not_writes (h : ¬ Writes verb) : madeWrite c verb uri body = none := by
  refine madeWrite_of_not_taken fun write hwrite => ?_
  obtain ⟨collection, _, hwrite⟩ := Option.bind_eq_some_iff.mp hwrite
  obtain ⟨json, _, hwrite⟩ := Option.bind_eq_some_iff.mp hwrite
  cases verb with
  | post => exact absurd trivial h
  | put => exact absurd trivial h
  | delete => exact absurd trivial h
  | _ => cases hwrite

/-- What a request changes of Redis, S3 and the database. -/
structure Changes (c : Clients β) (verb : Verb) (uri body : Str) (w w' : World β) : Prop where
  redis : ∀ key, w'.redis key ≠ w.redis key →
    ∃ id, fundAsked c verb uri = some id ∧ key = fileLocation id
  s3 : ∀ bucket key, w'.s3 bucket key ≠ w.s3 bucket key →
    bucket = fundamentalsBucketName ∧ ∃ id, fundAsked c verb uri = some id ∧ key = fileLocation id
  mongo : w'.mongo = w.mongo ++ (madeWrite c verb uri body).toList

variable {c} in
theorem changes_route (verb : Verb) (hselects : c.Selects) (w : World β) :
    Changes c verb uri body w (Eff.run (route c verb uri body) w).2 := by
  by_cases hwrites : Writes verb
  · rw [run_write c uri body hwrites]
    exact ⟨fun _ h => absurd rfl h, fun _ _ h => absurd rfl h, rfl⟩
  · have hnone := madeWrite_of_not_writes c uri body hwrites
    by_cases hget : verb = .get
    · subst hget
      obtain ⟨hredis, hs3, hmongo⟩ := run_get uri body hselects w
      refine ⟨fun key hkey => ?_, fun bucket key hkey => ?_, ?_⟩
      · by_contra hno
        exact hkey (hredis key fun id hid heq => hno ⟨id, hid, heq⟩)
      · by_contra hno
        exact hkey (hs3 bucket key fun id hid heq => hno ⟨heq.1, id, hid, heq.2⟩)
      · rw [hmongo, hnone, Option.toList_none, List.append_nil]
    · rw [run_other c uri body hget hwrites]
      refine ⟨fun _ h => absurd rfl h, fun _ _ h => absurd rfl h, ?_⟩
      rw [hnone, Option.toList_none, List.append_nil]

end Requests

/-! ## Histories -/

/-- What may happen, one after the other: a request, with what becomes of the
calls it makes, and the expiry of a key of Redis. -/
inductive HistoryAction (β : Type) where
  | request (c : Clients β) (verb : Verb) (uri body : Str)
  | expire (key : Str)

def historyStep (w : World β) : HistoryAction β → Option (World β)
  | .request c verb uri body => some (Eff.run (route c verb uri body) w).2
  | .expire key => some { w with redis := Function.update w.redis key none }

/-- The write that was made, if one was. -/
def HistoryAction.made : HistoryAction β → Option (MongoWrite β × Bool)
  | .request c verb uri body => madeWrite c verb uri body
  | .expire _ => none

/-- The request asks for the data of the fund. -/
def HistoryAction.AsksFor (id : Str) : HistoryAction β → Prop
  | .request c verb uri _ => fundAsked c verb uri = some id
  | .expire _ => False

def HistoryAction.Selects : HistoryAction β → Prop
  | .request c _ _ _ => c.Selects
  | .expire _ => True

/-- What differs after the actions. -/
structure Changed (as : List (HistoryAction β)) (w₀ w : World β) : Prop where
  redis : ∀ key, w.redis key ≠ w₀.redis key →
    .expire key ∈ as ∨ ∃ a ∈ as, ∃ id, a.AsksFor id ∧ key = fileLocation id
  s3 : ∀ bucket key, w.s3 bucket key ≠ w₀.s3 bucket key →
    bucket = fundamentalsBucketName ∧ ∃ a ∈ as, ∃ id, a.AsksFor id ∧ key = fileLocation id
  mongo : w.mongo = w₀.mongo ++ as.filterMap HistoryAction.made

theorem Changed.step {as : List (HistoryAction β)} {w₀ w w' : World β} {a : HistoryAction β}
    (h : Changed as w₀ w) (hselects : a.Selects) (hstep : historyStep w a = some w') :
    Changed (as ++ [a]) w₀ w' := by
  have hearlier : ∀ {key}, (∃ a' ∈ as, ∃ id, a'.AsksFor id ∧ key = fileLocation id) →
      ∃ a' ∈ as ++ [a], ∃ id, a'.AsksFor id ∧ key = fileLocation id := by
    rintro key ⟨a', ha', hid⟩
    exact ⟨a', List.mem_append_left _ ha', hid⟩
  have hlast : a ∈ as ++ [a] := List.mem_append_right _ (List.mem_singleton_self a)
  cases a with
  | request c verb uri body =>
      cases hstep
      have hchanges := changes_route uri body verb hselects w
      generalize (Eff.run (route c verb uri body) w).2 = w' at hchanges
      refine ⟨fun key hkey => ?_, fun bucket key hkey => ?_, ?_⟩
      · by_cases hsame : w'.redis key = w.redis key
        · rw [hsame] at hkey
          rcases h.redis key hkey with hexpire | hasked
          · exact .inl (List.mem_append_left _ hexpire)
          · exact .inr (hearlier hasked)
        · obtain ⟨id, hid, heq⟩ := hchanges.redis key hsame
          exact .inr ⟨_, hlast, id, hid, heq⟩
      · by_cases hsame : w'.s3 bucket key = w.s3 bucket key
        · rw [hsame] at hkey
          obtain ⟨hbucket, hasked⟩ := h.s3 bucket key hkey
          exact ⟨hbucket, hearlier hasked⟩
        · obtain ⟨hbucket, id, hid, heq⟩ := hchanges.s3 bucket key hsame
          exact ⟨hbucket, _, hlast, id, hid, heq⟩
      · rw [hchanges.mongo, h.mongo, List.filterMap_append, List.append_assoc]
        show _ = _ ++ (_ ++ List.filterMap HistoryAction.made [.request c verb uri body])
        cases hmade : madeWrite c verb uri body <;>
          simp [HistoryAction.made, hmade]
  | expire key =>
      cases hstep
      refine ⟨fun key' hkey => ?_, fun bucket key' hkey => ?_, ?_⟩
      · by_cases heq : key' = key
        · subst heq
          exact .inl hlast
        · have hbefore : w.redis key' ≠ w₀.redis key' := by
            rw [show w.redis key' = Function.update w.redis key none key' from
              (Function.update_of_ne heq ..).symm]
            exact hkey
          rcases h.redis key' hbefore with hexpire | hasked
          · exact .inl (List.mem_append_left _ hexpire)
          · exact .inr (hearlier hasked)
      · obtain ⟨hbucket, hasked⟩ := h.s3 bucket key' hkey
        exact ⟨hbucket, hearlier hasked⟩
      · rw [List.filterMap_append, show [HistoryAction.expire key].filterMap
          (HistoryAction.made (β := β)) = [] from rfl, List.append_nil]
        exact h.mongo

/-- **After any requests and expiries, the log of the database has grown by
the writes that were asked for and taken, in order; what differs in Redis has
expired or is at the location of a fund that was asked for; and what differs in
S3 is at such a location, in the bucket of the funds.** -/
theorem writes_in_history {as : List (HistoryAction β)} {w₀ w : World β}
    (hselects : ∀ a ∈ as, a.Selects) (hrun : Runs.run historyStep w₀ as = some w) :
    w.mongo = w₀.mongo ++ as.filterMap HistoryAction.made ∧
      (∀ key, w.redis key ≠ w₀.redis key →
        .expire key ∈ as ∨ ∃ a ∈ as, ∃ id, a.AsksFor id ∧ key = fileLocation id) ∧
      ∀ bucket key, w.s3 bucket key ≠ w₀.s3 bucket key →
        bucket = fundamentalsBucketName ∧
          ∃ a ∈ as, ∃ id, a.AsksFor id ∧ key = fileLocation id := by
  have hchanged : Changed as w₀ w := by
    refine Runs.run_inv_history (P := fun as w => Changed as w₀ w) ?_
      (fun ha h hstep => h.step (hselects _ ha) hstep) hrun
    exact ⟨fun _ h => absurd rfl h, fun _ _ h => absurd rfl h, (List.append_nil _).symm⟩
  exact ⟨hchanged.mongo, hchanged.redis, hchanged.s3⟩

/-- Knows a fund as well, and selects nothing. -/
def selectingClients : Clients Str :=
  { sampleClients with
    parseUri := fun uri =>
      if uri = "/fundamentals?sravzid=fund_us_aaaxc".toList then
        .ok ⟨["fundamentals".toList], [("sravzid".toList, "fund_us_aaaxc".toList)]⟩
      else sampleClients.parseUri uri
    s3select := fun bucket key column inClause =>
      pure (S3Client.s3select (fun _ => ⟨[], true⟩) bucket key column inClause) }

/-- A document is posted, a fund asked for, and its key expires. -/
def sampleHistory : List (HistoryAction Str) :=
  [.request selectingClients .post "/mdb/quotes".toList "[{}]".toList,
    .request selectingClients .get "/fundamentals?sravzid=fund_us_aaaxc".toList [],
    .expire (fileLocation "fund_us_aaaxc".toList)]

theorem writes_in_sample_history :
    ∃ w, Runs.run historyStep .empty sampleHistory = some w ∧
      w.mongo = [] ++ sampleHistory.filterMap HistoryAction.made ∧
      (∀ key, w.redis key ≠ none →
        .expire key ∈ sampleHistory ∨
          ∃ a ∈ sampleHistory, ∃ id, a.AsksFor id ∧ key = fileLocation id) ∧
      ∀ bucket key, w.s3 bucket key ≠ none →
        bucket = fundamentalsBucketName ∧
          ∃ a ∈ sampleHistory, ∃ id, a.AsksFor id ∧ key = fileLocation id := by
  have hselects : ∀ a ∈ sampleHistory, a.Selects := by
    intro a ha
    simp only [sampleHistory, List.mem_cons, List.not_mem_nil, or_false] at ha
    rcases ha with rfl | rfl | rfl
    · exact ⟨_, rfl⟩
    · exact ⟨_, rfl⟩
    · trivial
  exact ⟨_, rfl, writes_in_history hselects rfl⟩

end SravzBackend.Router
