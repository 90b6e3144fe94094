/-
# `Lib.DoWhile` — a loop that tests after its body

`doWhile body again fuel s` runs `body` from `s` for as long as the state it
leaves satisfies `again`, and at most `fuel` times: `none` says that the fuel ran
out, and nothing about the loop.

An `Invariant` comes in two halves, one for the states in which the body starts
and one for those it leaves.  The two rules are what it gives of the state the
loop is left in (`Invariant.spec`), and how much fuel is enough where each round
that is followed by another decreases a measure (`Invariant.exists_of_measure`).
-/
import Mathlib.Logic.Basic

namespace DoWhile

variable {σ : Type*}

/-- `do { s = body(s); } while (again(s));` -/
def doWhile (body : σ → σ) (again : σ → Bool) : Nat → σ → Option σ
  | 0, _ => none
  | fuel + 1, s => if again (body s) then doWhile body again fuel (body s) else some (body s)

theorem doWhile_of_again {body : σ → σ} {again : σ → Bool} {s : σ} (h : again (body s) = true)
    (fuel : Nat) : doWhile body again (fuel + 1) s = doWhile body again fuel (body s) := by
  rw [doWhile, if_pos h]

theorem doWhile_of_done {body : σ → σ} {again : σ → Bool} {s : σ} (h : ¬ again (body s) = true)
    (fuel : Nat) : doWhile body again (fuel + 1) s = some (body s) := by
  rw [doWhile, if_neg h]

/-- `P` holds where the body starts, and `Q` of what it leaves. -/
structure Invariant (body : σ → σ) (again : σ → Bool) (P Q : σ → Prop) : Prop where
  round : ∀ {s}, P s → Q (body s)
  next : ∀ {s}, Q s → again s = true → P s

variable {body : σ → σ} {again : σ → Bool} {P Q : σ → Prop}

/-- A loop that is left is left in a state that its body can leave, and that
fails the test. -/
theorem Invariant.spec (hinv : Invariant body again P Q) {fuel : Nat} {s t : σ} (hs : P s)
    (h : doWhile body again fuel s = some t) : Q t ∧ ¬ again t = true := by
  induction fuel generalizing s with
  | zero => cases h
  | succ fuel ih =>
      by_cases htest : again (body s) = true
      · rw [doWhile_of_again htest] at h
        exact ih (hinv.next (hinv.round hs) htest) h
      · rw [doWhile_of_done htest] at h
        cases h
        exact ⟨hinv.round hs, htest⟩

/-- More fuel than the measure is enough. -/
theorem Invariant.exists_of_measure (hinv : Invariant body again P Q) {m : σ → Nat}
    (hm : ∀ {s}, P s → again (body s) = true → m (body s) < m s)
    {fuel : Nat} {s : σ} (hs : P s) (hfuel : m s < fuel) :
    ∃ t, doWhile body again fuel s = some t := by
  induction fuel generalizing s with
  | zero => exact absurd hfuel (Nat.not_lt_zero _)
  | succ fuel ih =>
      by_cases htest : again (body s) = true
      · rw [doWhile_of_again htest]
        exact ih (hinv.next (hinv.round hs) htest)
          (Nat.lt_of_lt_of_le (hm hs htest) (Nat.le_of_lt_succ hfuel))
      · exact ⟨body s, doWhile_of_done htest fuel⟩

end DoWhile
