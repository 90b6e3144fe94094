/-
# `Text` — strings, as the source's libraries see them

A `std::string` is the list of its characters.  What the standard library
and Boost do with strings is defined here as far as the source uses it:
splitting at commas, comparing without regard to case, and writing an
integer in decimal.
-/
import Mathlib.Logic.Basic
import Mathlib.Tactic.Common

namespace SravzBackend

/-- A `std::string`. -/
abbrev Str := List Char

/-- `boost::algorithm::split(_, s, boost::is_any_of(","))`: the pieces
between the commas, empty ones included, so that there is always at least
one. -/
def split (s : Str) : List Str := s.splitOn ','

/-- `beast::iequals`: equal up to the case of ASCII letters. -/
def iequals (a b : Str) : Bool := a.map Char.toLower == b.map Char.toLower

/-- `boost::lexical_cast<std::string>` of an integer. -/
def lexicalCast : Int → Str
  | .ofNat n => Nat.toDigits 10 n
  | .negSucc n => '-' :: Nat.toDigits 10 (n + 1)

end SravzBackend
