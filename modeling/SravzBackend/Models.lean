/-
# `Models` — what a request to a controller is made into

A model is filled in by its controller: `set_param` looks a parameter up among
those of the request and hands it to a setter, or writes its name down as
missing; `set_missing_params_status` makes a status and a text of the missing
names.  Both are members of `BaseModel`, which the models derive from.
-/
import SravzBackend.Json

namespace SravzBackend

/-- The parameters of a request, `std::map<std::string, std::string>`. -/
abbrev Params := Str → Option Str

/-- The names, of those asked for, that have no parameter. -/
def Params.absent (params : Params) (names : List Str) : List Str :=
  names.filter fun name => params name = none

theorem Params.absent_nil (params : Params) : params.absent [] = [] := rfl

theorem Params.absent_cons (params : Params) (name : Str) (names : List Str) :
    params.absent (name :: names) =
      (if params name = none then [name] else []) ++ params.absent names := by
  unfold absent
  by_cases h : params name = none <;> simp [h]

structure BaseModel where
  status : Nat
  statusMessage : Str
  paramsMap : Params
  missingParams : List Str

def BaseModel.ofParams (params : Params) : BaseModel := ⟨200, [], params, []⟩

/-- A class that derives from `BaseModel`. -/
class Model (M : Type) where
  ofParams : Params → M
  base : M → BaseModel
  setBase : BaseModel → M → M
  toJson : (Json → Str) → M → Str
  base_ofParams : ∀ params, base (ofParams params) = .ofParams params
  base_setBase : ∀ b m, base (setBase b m) = b

namespace Model

variable {M : Type} [Model M]

/-- `set_param` -/
def setParam (m : M) (paramName : Str) (setter : Str → M → M) : M :=
  match (base m).paramsMap paramName with
  | some v => setter v m
  | none =>
      setBase { base m with missingParams := (base m).missingParams ++ [paramName] } m

/-- The text that names the missing parameters. -/
def missingMessage (missing : List Str) : Str :=
  "Parameter(s) missing: ".toList ++ (", ".toList).intercalate missing

/-- `set_missing_params_status` -/
def setMissingParamsStatus (m : M) : M :=
  if (base m).missingParams = [] then m
  else
    setBase
      { base m with status := 400, statusMessage := missingMessage (base m).missingParams } m

theorem setParam_of_some {m : M} {paramName v : Str} {setter : Str → M → M}
    (h : (base m).paramsMap paramName = some v) : setParam m paramName setter = setter v m := by
  rw [setParam, h]

theorem setParam_of_none {m : M} {paramName : Str} {setter : Str → M → M}
    (h : (base m).paramsMap paramName = none) :
    setParam m paramName setter =
      setBase { base m with missingParams := (base m).missingParams ++ [paramName] } m := by
  rw [setParam, h]

/-- A setter of a field of the derived class leaves the base as it is. -/
theorem base_setParam (setter : Str → M → M) (hsetter : ∀ v m, base (setter v m) = base m)
    (m : M) (paramName : Str) :
    base (setParam m paramName setter) =
      { base m with
        missingParams := (base m).missingParams ++
          if (base m).paramsMap paramName = none then [paramName] else [] } := by
  unfold setParam
  cases h : (base m).paramsMap paramName with
  | some v => rw [hsetter, if_neg nofun, List.append_nil]
  | none => rw [base_setBase, if_pos rfl]

theorem statusMessage_setMissingParamsStatus {m : M} (h : (base m).missingParams ≠ []) :
    (base (setMissingParamsStatus m)).statusMessage = missingMessage (base m).missingParams := by
  rw [setMissingParamsStatus, if_neg h, base_setBase]

end Model

/-! ## `PreSignedUrlModel` -/

structure PreSignedUrlModel extends BaseModel where
  id : Str
  bucket : Str
  key : Str
  url : Str
  expires : Str
  sravzid : Str

namespace PreSignedUrlModel

def setUrl (value : Str) (m : PreSignedUrlModel) : PreSignedUrlModel := { m with url := value }

def setSravzid (value : Str) (m : PreSignedUrlModel) : PreSignedUrlModel :=
  { m with sravzid := value }

/-- `to_json`; `serialize` is `boost::json::serialize`. -/
def toJson (serialize : Json → Str) (m : PreSignedUrlModel) : Str :=
  serialize (.object [("Bucket".toList, .string m.bucket), ("Key".toList, .string m.key),
    ("URL".toList, .string m.url), ("Expires".toList, .string m.expires),
    ("id".toList, .string m.id)])

instance : Model PreSignedUrlModel where
  ofParams params := ⟨.ofParams params, [], [], [], [], [], []⟩
  base := toBaseModel
  setBase b m := { m with toBaseModel := b }
  toJson := toJson
  base_ofParams _ := rfl
  base_setBase _ _ := rfl

end PreSignedUrlModel

/-! ## `DuckDBModel` -/

structure DuckDBModel extends BaseModel where
  bucket : Str
  key : Str
  whereClause : Str
  dbQueryResult : List Json

namespace DuckDBModel

def setBucket (value : Str) (m : DuckDBModel) : DuckDBModel := { m with bucket := value }

def setKey (value : Str) (m : DuckDBModel) : DuckDBModel := { m with key := value }

def setWhereClause (value : Str) (m : DuckDBModel) : DuckDBModel :=
  { m with whereClause := value }

def setDbQueryResult (value : List Json) (m : DuckDBModel) : DuckDBModel :=
  { m with dbQueryResult := value }

def toJson (serialize : Json → Str) (m : DuckDBModel) : Str :=
  serialize (.object [("Bucket".toList, .string m.bucket),
    ("DbQueryResult".toList, .array m.dbQueryResult), ("Key".toList, .string m.key),
    ("WhereClause".toList, .string m.whereClause)])

instance : Model DuckDBModel where
  ofParams params := ⟨.ofParams params, [], [], [], []⟩
  base := toBaseModel
  setBase b m := { m with toBaseModel := b }
  toJson := toJson
  base_ofParams _ := rfl
  base_setBase _ _ := rfl

end DuckDBModel

end SravzBackend
