/-
# `Controllers.Passing` — controllers that pass a request on

`DuckDBController` takes the parameters of a request into its model and asks
`DuckDBClient`; `MongoController` asks `MongoClient` about the database
`sravz`.
-/
import SravzBackend.Models
import SravzBackend.Services.DuckDB
import SravzBackend.Services.Mongo

namespace SravzBackend

open Services

variable {β : Type}

namespace DuckDBController

/-- `validate_request` -/
def validateRequest (duckDBModel : DuckDBModel) : DuckDBModel :=
  let duckDBModel := Model.setParam duckDBModel "bucket".toList DuckDBModel.setBucket
  let duckDBModel := Model.setParam duckDBModel "key".toList DuckDBModel.setKey
  Model.setParam duckDBModel "where_clause".toList DuckDBModel.setWhereClause

/-- The parameters asked for, and the fields they are for. -/
def asked : List (Str × (DuckDBModel → Str)) :=
  [("bucket".toList, (·.bucket)), ("key".toList, (·.key)),
    ("where_clause".toList, (·.whereClause))]

/-- The base of a validated model: its status is as it was. -/
theorem base_validateRequest (params : Params) :
    Model.base (validateRequest (Model.ofParams params)) =
      { BaseModel.ofParams params with
        missingParams := params.absent (asked.map Prod.fst) } := by
  rw [validateRequest, Model.base_setParam DuckDBModel.setWhereClause fun _ _ => rfl,
    Model.base_setParam DuckDBModel.setKey fun _ _ => rfl,
    Model.base_setParam DuckDBModel.setBucket fun _ _ => rfl, Model.base_ofParams]
  simp only [asked, List.map_cons, List.map_nil, Params.absent_cons, Params.absent_nil,
    List.append_nil, List.append_assoc]
  rfl

theorem fields_validateRequest {params : Params} (h : ∀ field ∈ asked, params field.1 ≠ none) :
    ∀ field ∈ asked,
      params field.1 = some (field.2 (validateRequest (Model.ofParams params))) := by
  obtain ⟨bucket, hbucket⟩ :=
    Option.ne_none_iff_exists'.mp (h ("bucket".toList, (·.bucket)) (by simp [asked]))
  obtain ⟨key, hkey⟩ :=
    Option.ne_none_iff_exists'.mp (h ("key".toList, (·.key)) (by simp [asked]))
  obtain ⟨clause, hclause⟩ :=
    Option.ne_none_iff_exists'.mp (h ("where_clause".toList, (·.whereClause)) (by simp [asked]))
  have hvalid : validateRequest (Model.ofParams params) =
      (((Model.ofParams params : DuckDBModel).setBucket bucket).setKey key).setWhereClause
        clause := by
    have hfirst : Model.setParam (Model.ofParams params) "bucket".toList DuckDBModel.setBucket =
        (Model.ofParams params : DuckDBModel).setBucket bucket := Model.setParam_of_some hbucket
    have hsecond : Model.setParam ((Model.ofParams params : DuckDBModel).setBucket bucket)
        "key".toList DuckDBModel.setKey =
        ((Model.ofParams params : DuckDBModel).setBucket bucket).setKey key :=
      Model.setParam_of_some hkey
    rw [validateRequest, hfirst, hsecond]
    exact Model.setParam_of_some hclause
  rw [hvalid]
  intro field hfield
  simp only [asked, List.mem_cons, List.not_mem_nil, or_false] at hfield
  rcases hfield with rfl | rfl | rfl
  · exact hbucket
  · exact hkey
  · exact hclause

/-- `DuckDBController::get` -/
def get (e : Engine) (reached : Bool) (duckDBModel : DuckDBModel) : Call β DuckDBModel := do
  let rows ← DuckDBClient.selectFromS3ParquetFile e reached duckDBModel.bucket duckDBModel.key
    duckDBModel.whereClause
  return duckDBModel.setDbQueryResult rows

end DuckDBController

namespace MongoController

variable (d : MongoDriver β)

def database : Str := "sravz".toList

def get (collection documentJson : Str) : Call β Str :=
  MongoClient.findOne d database collection documentJson

def post (collection documentJson : Str) : Call β Str :=
  MongoClient.insertMany d database collection documentJson

def put (collection searchJson updateJson : Str) (updateOne : Bool) : Call β Str :=
  MongoClient.upsert d database collection searchJson updateJson updateOne

def delete (collection searchJson : Str) (deleteOne : Bool) : Call β Str :=
  MongoClient.delete d database collection searchJson deleteOne

end MongoController

end SravzBackend
