/-
# `Services.World` — what is kept outside the process

The services of the repository keep their data elsewhere: Redis its keys, S3
its objects, Mongo the writes that have reached it, and DuckDB the tables of
the one connection the client holds.  `World` is all of it together, and a
call of a service is a computation over it that returns, throws, or never
comes back.
-/
import Mathlib.Logic.Function.Basic
import SravzBackend.Json
import SravzBackend.Lib.Effects

namespace SravzBackend.Services

/-- How a call ends that does not return. -/
inductive Stop where
  | thrown (what : Str)
  | blocked
deriving DecidableEq

/-- A write to a collection of a Mongo database; `β` is the type of BSON
documents.  An upsert sets the fields of `update`. -/
inductive MongoWrite (β : Type) where
  | insertMany (database collection : Str) (documents : List β)
  | upsert (database collection : Str) (filter update : β) (one : Bool)
  | delete (database collection : Str) (filter : β) (one : Bool)
deriving DecidableEq

/-- The rows of a table, each as the JSON object `to_json` makes of it. -/
abbrev Rows := List Json

/-- `redis` gives the value of a key and the seconds it is kept, `s3` the
content of an object in a bucket, `mongo` the writes that have reached the
database, each with whether it was acknowledged, and `duckdb` the tables. -/
structure World (β : Type) where
  redis : Str → Option (Str × Nat)
  s3 : Str → Str → Option Str
  mongo : List (MongoWrite β × Bool)
  duckdb : Str → Option Rows

abbrev Call (β α : Type) := Eff Stop (World β) α

variable {β : Type}

/-- A step without effect that throws what `what` says. -/
def Call.ofExcept {α ε : Type} (what : ε → Str) (r : Except ε α) : Call β α :=
  match r with
  | .ok a => pure a
  | .error e => throw (.thrown (what e))

theorem Call.run_ofExcept_bind {α γ ε : Type} (what : ε → Str) (r : Except ε α)
    (f : α → Call β γ) (w : World β) :
    Eff.run (Call.ofExcept what r >>= f) w =
      match r with
      | .ok a => Eff.run (f a) w
      | .error e => (.error (.thrown (what e)), w) := by
  cases r <;> rfl

namespace World

def empty : World β := ⟨fun _ => none, fun _ _ => none, [], fun _ => none⟩

def putObject (w : World β) (bucket key value : Str) : World β :=
  { w with s3 := Function.update w.s3 bucket (Function.update (w.s3 bucket) key (some value)) }

@[simp]
theorem putObject_s3_self (w : World β) (bucket key value : Str) :
    (w.putObject bucket key value).s3 bucket key = some value := by
  simp [putObject]

theorem putObject_s3_of_ne {w : World β} {bucket key value bucket' key' : Str}
    (h : ¬ (bucket' = bucket ∧ key' = key)) :
    (w.putObject bucket key value).s3 bucket' key' = w.s3 bucket' key' := by
  show Function.update w.s3 bucket _ bucket' key' = _
  by_cases hbucket : bucket' = bucket
  · subst hbucket
    rw [Function.update_self, Function.update_of_ne fun hkey => h ⟨rfl, hkey⟩]
  · rw [Function.update_of_ne hbucket]

/-- Putting what is there changes nothing, and nothing else does. -/
theorem putObject_eq_self_iff {w : World β} {bucket key value : Str} :
    w.putObject bucket key value = w ↔ w.s3 bucket key = some value := by
  constructor
  · intro h
    rw [← h]
    exact putObject_s3_self w bucket key value
  · intro h
    rw [putObject, ← h, Function.update_eq_self, Function.update_eq_self]

end World

end SravzBackend.Services
