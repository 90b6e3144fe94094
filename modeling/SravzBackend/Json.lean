/-
# `Json` — `boost::json` values and the conversions the source applies to them

The parser itself, `boost::json::parse`, is not part of the repository: every
function of the model that parses takes it as an argument of type
`JsonParser`. The messages of websockets and of Redis are parsed with comments
and trailing commas allowed, the bodies of requests, the documents of Mongo
and the rows of DuckDB without; nothing proved here depends on which.  What the
source does with a parsed value is here: `as_object`, `at`, and `value_to` at
the three types it is used at. Each of them throws where it does not apply,
and the error says why.

A double is the rational number it stands for; `value_to` of an integer type
accepts one only when it is integral and in range.
-/
import SravzBackend.Text

namespace SravzBackend

/-- A `boost::json::value`. -/
inductive Json where
  | null
  | bool (b : Bool)
  | int64 (i : Int)
  | uint64 (n : Nat)
  | double (q : Rat)
  | string (s : Str)
  | array (xs : List Json)
  | object (members : List (Str × Json))

/-- Why parsing or converting threw. -/
inductive JsonError where
  | badText
  | notObject
  | outOfRange
  | notNumber
  | notExact
  | notString
  | notBool
deriving DecidableEq

/-- A sequence of throwing steps succeeds when each of them does. -/
theorem bind_eq_ok {α β : Type} {x : Except JsonError α} {f : α → Except JsonError β} {b : β} :
    (x >>= f) = .ok b ↔ ∃ a, x = .ok a ∧ f a = .ok b := by
  cases x with
  | error e =>
      constructor
      · intro h
        cases h
      · rintro ⟨a, ha, _⟩
        cases ha
  | ok a =>
      constructor
      · intro h
        exact ⟨a, rfl, h⟩
      · rintro ⟨a', ha, hf⟩
        cases ha
        exact hf

/-- A `boost::json::object`: its members, no key twice. -/
abbrev Object := List (Str × Json)

/-- `boost::json::parse(msg, {}, opt)`. -/
abbrev JsonParser := Str → Except JsonError Json

/-- `value::as_object`. -/
def Json.asObject : Json → Except JsonError Object
  | .object members => .ok members
  | _ => .error .notObject

/-- `object::at`. -/
def objectAt (obj : Object) (key : Str) : Except JsonError Json :=
  match obj.lookup key with
  | some v => .ok v
  | none => .error .outOfRange

/-- `value::as_bool`. -/
def Json.asBool : Json → Except JsonError Bool
  | .bool b => .ok b
  | _ => .error .notBool

/-- `value::at(key).as_object()`. -/
def Json.objectMember (v : Json) (key : Str) : Except JsonError Object := do
  (← objectAt (← v.asObject) key).asObject

/-- `value::at(key).as_bool()`. -/
def Json.boolMember (v : Json) (key : Str) : Except JsonError Bool := do
  (← objectAt (← v.asObject) key).asBool

/-- `value_to` an integer type whose least and greatest values are `lo` and
`hi`. -/
def Json.toNumber (lo hi : Int) : Json → Except JsonError Int
  | .int64 i => if lo ≤ i ∧ i ≤ hi then .ok i else .error .notExact
  | .uint64 n => if (n : Int) ≤ hi then .ok n else .error .notExact
  | .double q => if q.den = 1 ∧ lo ≤ q.num ∧ q.num ≤ hi then .ok q.num else .error .notExact
  | _ => .error .notNumber

/-- `value_to<int>`. -/
def Json.toInt (v : Json) : Except JsonError Int := v.toNumber (-2147483648) 2147483647

/-- `value_to<long>`. -/
def Json.toLong (v : Json) : Except JsonError Int :=
  v.toNumber (-9223372036854775808) 9223372036854775807

/-- `value_to<std::string>`. -/
def Json.toStr : Json → Except JsonError Str
  | .string s => .ok s
  | _ => .error .notString

/-- A parser that knows finitely many texts, for concrete inputs. -/
def tableParser (table : List (Str × Json)) : JsonParser := fun msg =>
  match table.lookup msg with
  | some v => .ok v
  | none => .error .badText

end SravzBackend
