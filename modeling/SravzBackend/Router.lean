/-
# `Router` — from a request to a controller and back to a status

`router::route` takes the URL apart, hands a request to the controller its
first segment names, and makes a status and a text of what comes back; what is
thrown on the way becomes a 500.  `route_to_controller` has a model filled in
by a controller's `validate_request`, looks at its status, and either names
the missing parameters or calls `get`.

`missing_reported_iff`: `route_to_controller` treats a request as it should
exactly when no parameter is missing, because `validate_request` leaves the
status alone.  `status_agrees_iff`: the status of a write says whether it was
made exactly when the body of a `POST` is no other JSON than an array with
something in it, and the driver acknowledges what it takes.
-/
import SravzBackend.Controllers.Fundamentals
import SravzBackend.Controllers.Passing
import SravzBackend.Web.Responses

namespace SravzBackend.Router

open Services
open FundamentalsController (Success)
open HttpSession (Verb)

variable {β σ M : Type}

/-! ## `router::route_to_controller` -/

def routeToController [Model M] (serialize : Json → Str) (validateRequest : M → M)
    (get : M → Eff Stop σ M) (params : Params) : Eff Stop σ (Nat × Str) := do
  let model := validateRequest (Model.ofParams params)
  if (Model.base model).status ≠ 200 then
    let model := Model.setMissingParamsStatus model
    return (400, (Model.base model).statusMessage)
  else
    let model ← get model
    return ((Model.base model).status, Model.toJson serialize model)

/-! ## `router::route` -/

/-- A `boost::urls::url_view`. -/
structure Url where
  segments : List Str
  params : List (Str × Str)

/-- What the router holds.  `parseUri` is the constructor of `url_view`, and
`duckdbReached` whether S3 is reached should a table be loaded. -/
structure Clients (β : Type) where
  parseUri : Str → Except Str Url
  mongo : MongoDriver β
  stores : Outcomes
  duckdb : Engine
  duckdbReached : Bool
  s3select : Str → Str → Str → Str → Call β Str

/-- `obj[key] = value` -/
def assign (obj : Object) (key value : Str) : Object :=
  if (obj.lookup key).isSome then
    obj.map fun member => if member.1 = key then (key, .string value) else member
  else obj ++ [(key, .string value)]

def paramsObject (params : List (Str × Str)) : Object :=
  params.foldl (fun obj param => assign obj param.1 param.2) []

def paramsMap (params : List (Str × Str)) : Params :=
  params.foldl (fun map param => Function.update map param.1 (some param.2)) fun _ => none

def unsupportedService : Nat × Str := (501, "Unsupported service".toList)

variable (c : Clients β)

def routeGet (uv : Url) (service : Str) (rest : List Str) : Call β (Nat × Str) := do
  let params := paramsMap uv.params
  if service = "mdb".toList then
    if uv.params = [] then return (400, "Params required for GET method".toList)
    else
      match rest with
      | collection :: _ =>
          return (200, ← MongoController.get c.mongo collection
            (c.mongo.serialize (.object (paramsObject uv.params))))
      | [] => return unsupportedService
  else if service = "s3".toList then
    if uv.params = [] then return (400, "Params required for GET method".toList)
    else
      match params "bucket".toList, params "key".toList, params "column".toList,
        params "in_clause".toList with
      | some bucket, some key, some column, some inClause =>
          return (200, ← c.s3select bucket key column inClause)
      | _, _, _, _ => return (400, "bucket, key, col and in_clause params required".toList)
  else if service = "fundamentals".toList then
    routeToController c.mongo.serialize FundamentalsController.validateRequest
      (FundamentalsController.get c.stores) params
  else if service = "duckdb".toList then
    routeToController c.mongo.serialize DuckDBController.validateRequest
      (DuckDBController.get c.duckdb c.duckdbReached) params
  else return unsupportedService

/-- The branches for verbs that write. -/
def routeWrite (service : Str) (rest : List Str)
    (write : Str → Call β (Nat × Str)) : Call β (Nat × Str) := do
  if service = "mdb".toList then
    match rest with
    | collection :: _ => write collection
    | [] => return unsupportedService
  else return unsupportedService

def routePost (body collection : Str) : Call β (Nat × Str) := do
  return (201, ← MongoController.post c.mongo collection body)

def routePut (body collection : Str) : Call β (Nat × Str) := do
  let json ← Call.ofExcept c.mongo.what (c.mongo.parseJson body)
  let filter ← Call.ofExcept c.mongo.what (json.objectMember "filter".toList)
  let update ← Call.ofExcept c.mongo.what (json.objectMember "update".toList)
  let updateOne ← Call.ofExcept c.mongo.what (json.boolMember "update_one".toList)
  return (201, ← MongoController.put c.mongo collection (c.mongo.serialize (.object filter))
    (c.mongo.serialize (.object update)) updateOne)

def routeDelete (body collection : Str) : Call β (Nat × Str) := do
  let json ← Call.ofExcept c.mongo.what (c.mongo.parseJson body)
  let filter ← Call.ofExcept c.mongo.what (json.objectMember "filter".toList)
  let deleteOne ← Call.ofExcept c.mongo.what (json.boolMember "delete_one".toList)
  return (200, ← MongoController.delete c.mongo collection
    (c.mongo.serialize (.object filter)) deleteOne)

/-- The body of the `try` of `router::route`. -/
def routeTry (verb : Verb) (uri body : Str) : Call β (Nat × Str) := do
  let uv ← Call.ofExcept id (c.parseUri uri)
  match uv.segments with
  | [] => return (501, "Unsupported path".toList)
  | service :: rest =>
      match verb with
      | .get => routeGet c uv service rest
      | .post => routeWrite service rest (routePost c body)
      | .put => routeWrite service rest (routePut c body)
      | .delete => routeWrite service rest (routeDelete c body)
      | _ => return (405, "Unsupported method".toList)

/-- What is thrown becomes a 500. -/
def caught (x : Call β (Nat × Str)) : Call β (Nat × Str) :=
  tryCatch x fun
    | .thrown what => return (500, "Error: ".toList ++ what)
    | .blocked => throw .blocked

/-- `router::route` -/
def route (verb : Verb) (uri body : Str) : Call β (Nat × Str) := caught (routeTry c verb uri body)

/-! ## Missing parameters -/

section Missing

variable [Model M] (serialize : Json → Str) (validateRequest : M → M) (get : M → Eff Stop σ M)
  (params : Params) (st : σ)

/-- What a call of `route_to_controller` comes to, and the models `get` has
been called with. -/
def handled : Except Stop (Nat × Str) × List M :=
  let r := Eff.run (routeToController serialize validateRequest (Eff.logged get) params) ([], st)
  (r.1, r.2.1)

/-- Missing parameters are named, and nothing is called; with none missing,
`get` is called once, with every field set to its parameter. -/
def Reported (asked : List (Str × (M → Str))) (r : Except Stop (Nat × Str) × List M) : Prop :=
  if params.absent (asked.map Prod.fst) = [] then
    ∃ m, r.2 = [m] ∧ ∀ field ∈ asked, params field.1 = some (field.2 m)
  else
    r = (.ok (400, "Parameter(s) missing: ".toList ++
      (", ".toList).intercalate (params.absent (asked.map Prod.fst))), [])

variable {serialize validateRequest get params st}

omit [Model M] in
theorem absent_eq_nil {asked : List (Str × (M → Str))} :
    params.absent (asked.map Prod.fst) = [] ↔ ∀ field ∈ asked, params field.1 ≠ none := by
  unfold Params.absent
  rw [List.filter_eq_nil_iff, List.forall_mem_map]
  simp only [decide_eq_true_eq, ne_eq]

/-- With the status as it was made, `get` is called. -/
theorem handled_of_ok
    (h : (Model.base (validateRequest (Model.ofParams params))).status = 200) :
    (handled serialize validateRequest get params st).2 =
      [validateRequest (Model.ofParams params)] := by
  unfold handled routeToController
  rw [if_neg (not_not.mpr h), Eff.run_bind, Eff.run_logged]
  cases (Eff.run (get (validateRequest (Model.ofParams params))) st).1 <;> rfl

/-- With any other status the missing parameters are named. -/
theorem handled_of_not_ok
    (h : (Model.base (validateRequest (Model.ofParams params))).status ≠ 200)
    (hmissing : (Model.base (validateRequest (Model.ofParams params))).missingParams ≠ []) :
    handled serialize validateRequest get params st =
      (.ok (400, Model.missingMessage
        (Model.base (validateRequest (Model.ofParams params))).missingParams), []) := by
  rw [← Model.statusMessage_setMissingParamsStatus hmissing]
  unfold handled routeToController
  rw [if_pos h]
  rfl

omit [Model M] in
/-- With a parameter missing, nothing must be called. -/
theorem not_reported_of_called {asked : List (Str × (M → Str))}
    {r : Except Stop (Nat × Str) × List M} (hmissing : params.absent (asked.map Prod.fst) ≠ [])
    (hcalled : r.2 ≠ []) : ¬ Reported params asked r := by
  rw [Reported, if_neg hmissing]
  rintro rfl
  exact hcalled rfl

/-- It is the status that `validate_request` leaves which decides. -/
theorem reported_iff_status {asked : List (Str × (M → Str))}
    (hmissing : (Model.base (validateRequest (Model.ofParams params))).missingParams =
      params.absent (asked.map Prod.fst))
    (hfields : (∀ field ∈ asked, params field.1 ≠ none) →
      ∀ field ∈ asked, params field.1 = some (field.2 (validateRequest (Model.ofParams params))))
    (hok : params.absent (asked.map Prod.fst) = [] →
      (Model.base (validateRequest (Model.ofParams params))).status = 200) :
    Reported params asked (handled serialize validateRequest get params st) ↔
      ((Model.base (validateRequest (Model.ofParams params))).status = 200 →
        params.absent (asked.map Prod.fst) = []) := by
  by_cases h : params.absent (asked.map Prod.fst) = []
  · rw [Reported, if_pos h, handled_of_ok (hok h)]
    exact iff_of_true ⟨_, rfl, hfields (absent_eq_nil.mp h)⟩ fun _ => h
  · by_cases hstatus : (Model.base (validateRequest (Model.ofParams params))).status = 200
    · refine iff_of_false (not_reported_of_called h ?_) fun himp => h (himp hstatus)
      rw [handled_of_ok hstatus]
      exact List.cons_ne_nil _ _
    · rw [Reported, if_neg h, handled_of_not_ok hstatus (hmissing ▸ h), hmissing]
      exact iff_of_true rfl fun hstatus' => absurd hstatus' hstatus

end Missing

/-- **For both controllers and every set of parameters: missing parameters are
reported as they should be, and otherwise `get` is called once with every field
set, if and only if no parameter is missing.** -/
theorem missing_reported_iff (serialize : Json → Str) (params : Params) (st : σ) :
    (∀ get : PreSignedUrlModel → Eff Stop σ PreSignedUrlModel,
      Reported params FundamentalsController.asked
          (handled serialize FundamentalsController.validateRequest get params st) ↔
        ∀ field ∈ FundamentalsController.asked, params field.1 ≠ none) ∧
      ∀ get : DuckDBModel → Eff Stop σ DuckDBModel,
        Reported params DuckDBController.asked
            (handled serialize DuckDBController.validateRequest get params st) ↔
          ∀ field ∈ DuckDBController.asked, params field.1 ≠ none := by
  constructor
  · intro get
    have hbase := FundamentalsController.base_validateRequest params
    rw [reported_iff_status (by rw [hbase]) FundamentalsController.fields_validateRequest
      fun _ => by rw [hbase]; rfl, ← absent_eq_nil, hbase]
    exact forall_prop_of_true rfl
  · intro get
    have hbase := DuckDBController.base_validateRequest params
    rw [reported_iff_status (by rw [hbase]) DuckDBController.fields_validateRequest
      fun _ => by rw [hbase]; rfl, ← absent_eq_nil, hbase]
    exact forall_prop_of_true rfl

/-- What `GET /fundamentals` comes to without any parameter. -/
def handledWithoutId (w : World Unit) : Except Stop (Nat × Str) × List PreSignedUrlModel :=
  handled (fun _ => "\x7b\x7d".toList) FundamentalsController.validateRequest
    (FundamentalsController.get FundamentalsController.failingOutcomes) (fun _ => none) w

/-- Without any parameter, `get` is called for the fund with the empty id: where
S3 has an object for it, a URL is answered with; with empty stores it throws. -/
theorem missing_sravzid_unreported :
    (∃ m, m.sravzid = [] ∧
      handledWithoutId (World.empty.putObject FundamentalsController.fundamentalsBucketName
        (FundamentalsController.fileLocation []) "[]".toList) =
          (.ok (200, "\x7b\x7d".toList), [m]) ∧
      ¬ Reported (fun _ => none) FundamentalsController.asked
        (.ok (200, "\x7b\x7d".toList), [m])) ∧
    ∃ m, m.sravzid = [] ∧
      handledWithoutId World.empty =
        (.error (.thrown "Invalid SravzID: . Cannot generate Code".toList), [m]) ∧
      ¬ Reported (fun _ => none) FundamentalsController.asked
        (.error (.thrown "Invalid SravzID: . Cannot generate Code".toList), [m]) := by
  have hmissing : Params.absent (fun _ => none) (FundamentalsController.asked.map Prod.fst) ≠ [] :=
    List.cons_ne_nil _ _
  exact ⟨⟨_, rfl, rfl, not_reported_of_called hmissing (List.cons_ne_nil _ _)⟩,
    _, rfl, rfl, not_reported_of_called hmissing (List.cons_ne_nil _ _)⟩

/-! ## What a write asks for -/

section Writes

/-- The write a body asks for: the elements of an array in order, an upsert of
its filter and update, or a delete by its filter. -/
def requestedWrite (d : MongoDriver β) (verb : Verb) (collection body : Str) :
    Option (MongoWrite β) :=
  (d.parseJson body).toOption.bind fun json =>
    match verb, json with
    | .post, .array (v :: vs) =>
        (MongoClient.documentsOf d (v :: vs)).toOption.map (.insertMany "sravz".toList collection)
    | .put, json =>
        (json.objectMember "filter".toList).toOption.bind fun filter =>
          (json.objectMember "update".toList).toOption.bind fun update =>
            (json.boolMember "update_one".toList).toOption.bind fun updateOne =>
              (d.fromJson (d.serialize (.object filter))).toOption.bind fun filter =>
                (d.fromJson (d.serialize (.object update))).toOption.bind fun update =>
                  some (.upsert "sravz".toList collection filter update updateOne)
    | .delete, json =>
        (json.objectMember "filter".toList).toOption.bind fun filter =>
          (json.boolMember "delete_one".toList).toOption.bind fun deleteOne =>
            (d.fromJson (d.serialize (.object filter))).toOption.bind fun filter =>
              some (.delete "sravz".toList collection filter deleteOne)
    | _, _ => none

/-- The collection a URL names: the second segment after `mdb`. -/
def collectionOf (uri : Str) : Option Str :=
  match c.parseUri uri with
  | .ok ⟨service :: collection :: _, _⟩ =>
      if service = "mdb".toList then some collection else none
  | _ => none

/-- The write a request asks for. -/
def requested (verb : Verb) (uri body : Str) : Option (MongoWrite β) :=
  (collectionOf c uri).bind fun collection => requestedWrite c.mongo verb collection body

/-- The status is a 2xx when the write asked for has been made and
acknowledged, and nothing has been written otherwise. -/
def Agrees (verb : Verb) (uri body : Str) (w : World β) :
    Except Stop (Nat × Str) × World β → Prop
  | (.ok (status, _), w') =>
      (Success status ∧ ∃ write, requested c verb uri body = some write ∧
        w' = MongoClient.wrote w write true) ∨ (¬ Success status ∧ w' = w)
  | (.error _, _) => False

/-- A body that is JSON, but no array with something in it. -/
def NothingToInsert (verb : Verb) (uri body : Str) : Prop :=
  verb = .post ∧ (collectionOf c uri).isSome ∧
    ∃ json, c.mongo.parseJson body = .ok json ∧ ¬ MongoClient.Insertable json

/-- The driver takes the write and does not acknowledge it. -/
def Unacknowledged (verb : Verb) (uri body : Str) : Prop :=
  ∃ write, requested c verb uri body = some write ∧ MongoClient.Taken c.mongo write none

variable {c} {verb : Verb} {uri body collection : Str}

theorem caught_of_throws {x : Call β (Nat × Str)} (h : MongoClient.Throws x) (w : World β) :
    ∃ a, ¬ Success a.1 ∧ Eff.run (caught x) w = (.ok a, w) := by
  obtain ⟨what, hrun⟩ := h w
  refine ⟨(500, "Error: ".toList ++ what), show ¬ Success 500 by decide, ?_⟩
  rw [caught, Eff.run_tryCatch, hrun]
  rfl

theorem caught_of_ok {x : Call β (Nat × Str)} {w w' : World β} {a : Nat × Str}
    (h : Eff.run x w = (.ok a, w')) : Eff.run (caught x) w = (.ok a, w') := by
  rw [caught, Eff.run_tryCatch, h]

/-- The verbs that write. -/
def Writes : Verb → Prop
  | .post => True
  | .put => True
  | .delete => True
  | _ => False

/-- The branch of a verb that writes, once there is a collection. -/
def writeBranch (c : Clients β) (body collection : Str) : Verb → Call β (Nat × Str)
  | .post => routePost c body collection
  | .put => routePut c body collection
  | _ => routeDelete c body collection

theorem routeWrite_of_mdb {service : Str} (h : service = "mdb".toList) (rest : List Str)
    (write : Str → Call β (Nat × Str)) :
    routeWrite service (collection :: rest) write = write collection := by
  rw [routeWrite, if_pos h]

/-- Without a collection a write is refused. -/
theorem routeWrite_refused {service : Str} {rest : List Str} {write : Str → Call β (Nat × Str)}
    (h : service = "mdb".toList → rest = []) :
    routeWrite service rest write = pure unsupportedService := by
  unfold routeWrite
  split
  · next hservice => rw [h hservice]
  · rfl

/-- With a collection, what is left of `route` is the branch of the verb. -/
theorem route_of_collection (hverb : Writes verb) (h : collectionOf c uri = some collection) :
    route c verb uri body = caught (writeBranch c body collection verb) := by
  unfold collectionOf at h
  split at h
  · next service collection' rest params hurl =>
      rw [Option.ite_none_right_eq_some] at h
      obtain ⟨hservice, ⟨⟩⟩ := h
      unfold route routeTry
      rw [hurl]
      cases verb with
      | post => exact congrArg caught (routeWrite_of_mdb hservice rest _)
      | put => exact congrArg caught (routeWrite_of_mdb hservice rest _)
      | delete => exact congrArg caught (routeWrite_of_mdb hservice rest _)
      | _ => exact absurd hverb not_false
  · cases h

theorem route_refused (hverb : Writes verb) (h : collectionOf c uri = none) (w : World β) :
    ∃ a, ¬ Success a.1 ∧ Eff.run (route c verb uri body) w = (.ok a, w) := by
  cases hurl : c.parseUri uri with
  | error what =>
      refine caught_of_throws (fun w => ⟨what, ?_⟩) w
      rw [routeTry, Call.run_ofExcept_bind, hurl]
      rfl
  | ok url =>
      obtain ⟨segments, params⟩ := url
      cases segments with
      | nil =>
          refine ⟨(501, "Unsupported path".toList), by decide, caught_of_ok ?_⟩
          rw [routeTry, Call.run_ofExcept_bind, hurl]
          rfl
      | cons service rest =>
          have hno : service = "mdb".toList → rest = [] := by
            intro hservice
            cases rest with
            | nil => rfl
            | cons collection rest =>
                simp only [collectionOf, hurl, if_pos hservice] at h
                cases h
          refine ⟨unsupportedService, by decide, caught_of_ok ?_⟩
          rw [routeTry, Call.run_ofExcept_bind, hurl]
          cases verb with
          | post => exact congrArg (Eff.run · w) (routeWrite_refused hno)
          | put => exact congrArg (Eff.run · w) (routeWrite_refused hno)
          | delete => exact congrArg (Eff.run · w) (routeWrite_refused hno)
          | _ => exact absurd hverb not_false

/-- A 2xx of a branch that has made its write. -/
theorem returns_status {status : Nat} (h : Success status) (text : Str) :
    MongoClient.Returns (fun a : Nat × Str => Success a.1)
      (pure (status, text) : Call β (Nat × Str)) :=
  MongoClient.returns_pure h

/-- An array with something in it is what a `POST` needs. -/
theorem routePost_issues (h : ¬ NothingToInsert c .post uri body)
    (hcollection : collectionOf c uri = some collection) :
    MongoClient.Issues c.mongo (requestedWrite c.mongo .post collection body)
      (fun a => Success a.1) (routePost c body collection) := by
  unfold requestedWrite routePost MongoController.post
  cases hjson : c.mongo.parseJson body with
  | error e =>
      refine MongoClient.Throws.issues fun w => ⟨c.mongo.what e, ?_⟩
      refine Eff.run_bind_of_error ?_ _
      rw [MongoClient.insertMany, Call.run_ofExcept_bind, hjson]
  | ok json =>
      have hinsertable : MongoClient.Insertable json := by
        by_contra hno
        exact h ⟨rfl, by rw [hcollection]; rfl, json, hjson, hno⟩
      obtain ⟨v, vs, rfl⟩ := hinsertable
      exact (MongoClient.insertMany_issues c.mongo hjson _ collection).bind
        fun text => returns_status (by decide) text

theorem routePut_issues :
    MongoClient.Issues c.mongo (requestedWrite c.mongo .put collection body)
      (fun a => Success a.1) (routePut c body collection) := by
  refine MongoClient.issues_ofExcept_bind fun json _ => ?_
  refine MongoClient.issues_ofExcept_bind fun filter _ => ?_
  refine MongoClient.issues_ofExcept_bind fun update _ => ?_
  refine MongoClient.issues_ofExcept_bind fun updateOne _ => ?_
  exact (MongoClient.upsert_issues c.mongo _ collection _ _ updateOne).bind
    fun text => returns_status (by decide) text

theorem routeDelete_issues :
    MongoClient.Issues c.mongo (requestedWrite c.mongo .delete collection body)
      (fun a => Success a.1) (routeDelete c body collection) := by
  refine MongoClient.issues_ofExcept_bind fun json _ => ?_
  refine MongoClient.issues_ofExcept_bind fun filter _ => ?_
  refine MongoClient.issues_ofExcept_bind fun deleteOne _ => ?_
  exact (MongoClient.delete_issues c.mongo _ collection _ deleteOne).bind
    fun text => returns_status (by decide) text

/-- A branch that issues its write agrees unless the write is not acknowledged. -/
theorem agrees_of_issues {x : Call β (Nat × Str)} (w : World β)
    (h : MongoClient.Issues c.mongo (requested c verb uri body) (fun a => Success a.1) x) :
    Agrees c verb uri body w (Eff.run (caught x) w) ↔ ¬ Unacknowledged c verb uri body := by
  rcases h with ⟨hthrows, hnot⟩ | ⟨write, r, hwrite, htaken, hreturns⟩
  · obtain ⟨a, hstatus, hrun⟩ := caught_of_throws hthrows w
    rw [hrun]
    refine iff_of_true (.inr ⟨hstatus, rfl⟩) ?_
    rintro ⟨write, hwrite, htaken⟩
    exact hnot write hwrite none htaken
  · obtain ⟨a, hstatus, hrun⟩ := hreturns w
    rw [caught_of_ok hrun]
    cases r with
    | none =>
        refine iff_of_false ?_ (not_not.mpr ⟨write, hwrite, htaken⟩)
        rintro (⟨_, write', hwrite', hw⟩ | ⟨hno, _⟩)
        · have hmongo := congrArg World.mongo hw
          have hlast := (List.append_inj' hmongo rfl).2
          cases hlast
        · exact hno hstatus
    | some r =>
        refine iff_of_true (.inl ⟨hstatus, write, hwrite, rfl⟩) ?_
        rintro ⟨write', hwrite', _, hexecute⟩
        cases hwrite.symm.trans hwrite'
        cases htaken.2.symm.trans hexecute

/-- **For every URL, body and driver, the status of a `POST`, `PUT` or
`DELETE` is a 2xx exactly when the one write asked for has been made and
acknowledged, and nothing is written otherwise, if and only if the request is
no `POST` to a collection whose body is JSON but no array with something in
it, and the driver acknowledges the write asked for if it takes it.** -/
theorem status_agrees_iff (hverb : Writes verb) (w : World β) :
    Agrees c verb uri body w (Eff.run (route c verb uri body) w) ↔
      ¬ NothingToInsert c verb uri body ∧ ¬ Unacknowledged c verb uri body := by
  cases hcollection : collectionOf c uri with
  | none =>
      have hrequested : requested c verb uri body = none := by rw [requested, hcollection]; rfl
      have hrefused : ∃ a, ¬ Success a.1 ∧ Eff.run (route c verb uri body) w = (.ok a, w) :=
        route_refused hverb hcollection w
      obtain ⟨a, hstatus, hrun⟩ := hrefused
      rw [hrun]
      refine iff_of_true (.inr ⟨hstatus, rfl⟩) ⟨?_, ?_⟩
      · rintro ⟨_, hsome, _⟩
        rw [hcollection] at hsome
        cases hsome
      · rintro ⟨write, hwrite, _⟩
        rw [hrequested] at hwrite
        cases hwrite
  | some collection =>
      have hrequested : requested c verb uri body =
          requestedWrite c.mongo verb collection body := by rw [requested, hcollection]; rfl
      rw [route_of_collection hverb hcollection]
      by_cases hnothing : NothingToInsert c verb uri body
      · refine iff_of_false ?_ fun h => h.1 hnothing
        obtain ⟨rfl, _, json, hjson, hno⟩ := hnothing
        obtain ⟨text, _, hrun⟩ := MongoClient.insertMany_returns c.mongo hjson hno
          MongoController.database collection w
        have hbranch : Eff.run (writeBranch c body collection .post) w = (.ok (201, text), w) :=
          Eff.run_bind_of_ok hrun _
        rw [caught_of_ok hbranch]
        rintro (⟨_, write, _, hw⟩ | ⟨hstatus, _⟩)
        · have hlength := congrArg (List.length ∘ World.mongo) hw
          simp [MongoClient.wrote] at hlength
        · exact hstatus (by decide)
      · rw [and_iff_right hnothing]
        refine agrees_of_issues w ?_
        rw [hrequested]
        cases verb with
        | post => exact routePost_issues hnothing hcollection
        | put => exact routePut_issues
        | delete => exact routeDelete_issues
        | _ => exact absurd hverb not_false

end Writes

/-- Knows three bodies, and takes every write. -/
def sampleDriver : MongoDriver Str where
  parseJson := tableParser [("[\x7b\x7d]".toList, .array [.object []]),
    ("\x7b\x7d".toList, .object []), ("[]".toList, .array [])]
  what _ := "syntax error".toList
  serialize
    | .object [] => "\x7b\x7d".toList
    | _ => "null".toList
  fromJson text :=
    if text = "\x7b\x7d".toList then .ok text else .error "no document".toList
  toJson _ := "\x7b \"result\" : \x7b \x7d \x7d".toList
  acquire := .ok ()
  findOne _ _ _ := .ok none
  execute _ := .ok (some ⟨[(0, .null)], 1⟩)

def sampleClients : Clients Str where
  parseUri uri :=
    if uri = "/mdb/quotes".toList then .ok ⟨["mdb".toList, "quotes".toList], []⟩
    else .error "leftover".toList
  mongo := sampleDriver
  stores := ⟨none, none, true, true, fun bucket key => bucket ++ key,
    fun _ => ⟨false, fun _ => false, 200, "[]".toList⟩, []⟩
  duckdb := DuckDBClient.lengthEngine
  duckdbReached := true
  s3select _ _ _ _ := pure "[]".toList

theorem status_agrees_one_document :
    Agrees sampleClients .post "/mdb/quotes".toList "[{}]".toList .empty
        (Eff.run (route sampleClients .post "/mdb/quotes".toList "[{}]".toList) .empty) ↔
      ¬ NothingToInsert sampleClients .post "/mdb/quotes".toList "[{}]".toList ∧
        ¬ Unacknowledged sampleClients .post "/mdb/quotes".toList "[{}]".toList :=
  status_agrees_iff (show Writes .post from trivial) .empty

/-- A document that is not in an array, and an array without one, are answered
with a 201, and nothing is written. -/
theorem created_without_write :
    (Eff.run (route sampleClients .post "/mdb/quotes".toList "{}".toList) .empty =
        (.ok (201, "Not an array".toList), .empty) ∧
      ¬ Agrees sampleClients .post "/mdb/quotes".toList "{}".toList .empty
        (.ok (201, "Not an array".toList), .empty)) ∧
      Eff.run (route sampleClients .post "/mdb/quotes".toList "[]".toList) .empty =
          (.ok (201, "Empty array".toList), .empty) ∧
        ¬ Agrees sampleClients .post "/mdb/quotes".toList "[]".toList .empty
          (.ok (201, "Empty array".toList), .empty) := by
  have hwrote : ∀ write : MongoWrite Str, World.empty ≠ MongoClient.wrote .empty write true := by
    intro write hw
    cases congrArg World.mongo hw
  refine ⟨⟨rfl, ?_⟩, rfl, ?_⟩
  · rintro (⟨_, write, _, hw⟩ | ⟨hstatus, _⟩)
    · exact hwrote write hw
    · exact hstatus (by decide)
  · rintro (⟨_, write, _, hw⟩ | ⟨hstatus, _⟩)
    · exact hwrote write hw
    · exact hstatus (by decide)

/-! ## The router of the HTTP session -/

/-- What the task of the background worker gets from the router in a world;
where `route` does not come back, it gets nothing. -/
def toHttp (c : Clients β) (w : World β) : HttpSession.Router := fun verb uri body =>
  match (Eff.run (route c verb uri body) w).1 with
  | .ok r => .ok r
  | .error _ => .error ()

/-- Nothing that is thrown gets out of `route`. -/
theorem route_not_thrown (c : Clients β) (verb : Verb) (uri body : Str) (w : World β)
    (what : Str) : (Eff.run (route c verb uri body) w).1 ≠ .error (.thrown what) := by
  unfold route caught
  rw [Eff.run_tryCatch]
  rcases Eff.run (routeTry c verb uri body) w with ⟨⟨what' | _⟩ | a, w'⟩ <;> nofun

/-- So the background worker has an answer unless a fetch never ends. -/
theorem routed_iff (c : Clients β) (w : World β) (req : HttpSession.Request) :
    HttpSession.Routed (toHttp c w) req ↔
      (Eff.run (route c req.method req.target req.body) w).1 ≠ .error .blocked := by
  have hthrown := route_not_thrown c req.method req.target req.body w
  unfold HttpSession.Routed toHttp
  cases hrun : (Eff.run (route c req.method req.target req.body) w).1 with
  | ok r => exact iff_of_true ⟨r, rfl⟩ nofun
  | error stop =>
      cases stop with
      | thrown what => exact absurd hrun (hthrown what)
      | blocked => exact iff_of_false (fun ⟨_, h⟩ => nomatch h) fun h => h rfl

end SravzBackend.Router
