/-
# `Lib.SqlLiterals` — a parenthesised list of SQL string literals

`('a','b')` with `''` for a quote inside a literal, and blanks allowed around
the literals.  `lex` reads such a list back, one character at a time, and
`render` writes one.  `lex_render`: what is written is read back.
`lex_size`: a list that is read takes at least the characters it takes to
write it, so a text that is shorter is read as something else.
-/
import Mathlib.Tactic.Common

namespace SqlLiterals

/-! ## Writing -/

/-- The content of a literal, as it stands in the text. -/
def escape (value : List Char) : List Char :=
  value.flatMap fun c => if c = '\'' then ['\'', '\''] else [c]

def literal (value : List Char) : List Char := '\'' :: escape value ++ ['\'']

def render (values : List (List Char)) : List Char :=
  '(' :: [','].intercalate (values.map literal) ++ [')']

theorem escape_cons (c : Char) (value : List Char) :
    escape (c :: value) = (if c = '\'' then ['\'', '\''] else [c]) ++ escape value :=
  List.flatMap_cons

theorem escape_append (a b : List Char) : escape (a ++ b) = escape a ++ escape b :=
  List.flatMap_append

theorem escape_of_no_quote {value : List Char} (h : '\'' ∉ value) : escape value = value := by
  induction value with
  | nil => rfl
  | cons c value ih =>
      obtain ⟨hc, hvalue⟩ := not_or.mp (mt List.mem_cons.mpr h)
      rw [escape_cons, if_neg (Ne.symm hc), ih hvalue]
      rfl

/-- Every quote in a value takes one character more. -/
theorem length_escape (value : List Char) :
    (escape value).length = value.length + value.count '\'' := by
  induction value with
  | nil => rfl
  | cons c value ih =>
      rw [escape_cons, List.length_append, ih, List.length_cons, List.count_cons]
      by_cases hc : c = '\''
      · rw [if_pos hc, if_pos (beq_iff_eq.mpr hc), List.length_cons, List.length_singleton]
        omega
      · rw [if_neg hc, if_neg (mt beq_iff_eq.mp hc), List.length_singleton]
        omega

/-! ## Reading -/

/-- Where the lexer is, with the values it has read: before the list, where a
literal must come, inside one, after a quote inside one, after one, after the
list, or nowhere. -/
inductive State where
  | start
  | opened (values : List (List Char))
  | inside (values : List (List Char)) (value : List Char)
  | quoted (values : List (List Char)) (value : List Char)
  | closed (values : List (List Char))
  | ended (values : List (List Char))
  | failed
deriving DecidableEq

open State

def step : State → Char → State
  | start, c => if c = '(' then opened [] else if c = ' ' then start else failed
  | opened values, c =>
      if c = '\'' then inside values [] else if c = ' ' then opened values else failed
  | inside values value, c =>
      if c = '\'' then quoted values value else inside values (value ++ [c])
  | quoted values value, c =>
      if c = '\'' then inside values (value ++ ['\''])
      else if c = ',' then opened (values ++ [value])
      else if c = ')' then ended (values ++ [value])
      else if c = ' ' then closed (values ++ [value])
      else failed
  | closed values, c =>
      if c = ',' then opened values
      else if c = ')' then ended values
      else if c = ' ' then closed values
      else failed
  | ended values, c => if c = ' ' then ended values else failed
  | failed, _ => failed

/-- The values of a text that is a list of literals. -/
def lex (text : List Char) : Option (List (List Char)) :=
  match text.foldl step start with
  | ended values => some values
  | _ => none

/-! ## What is written is read back -/

theorem foldl_escape (values : List (List Char)) (read value : List Char) :
    (escape value).foldl step (inside values read) = inside values (read ++ value) := by
  induction value generalizing read with
  | nil => rw [List.append_nil]; rfl
  | cons c value ih =>
      rw [escape_cons, List.foldl_append]
      by_cases hc : c = '\''
      · subst hc
        rw [if_pos rfl]
        show (escape value).foldl step (inside values (read ++ ['\''])) = _
        rw [ih, List.append_assoc]
        rfl
      · rw [if_neg hc]
        show (escape value).foldl step (step (inside values read) c) = _
        rw [step, if_neg hc, ih, List.append_assoc]
        rfl

theorem foldl_literal (values : List (List Char)) (value : List Char) :
    (literal value).foldl step (opened values) = quoted values value := by
  have hinside : (escape value).foldl step (inside values []) = inside values value :=
    foldl_escape values [] value
  show (escape value ++ ['\'']).foldl step (inside values []) = _
  rw [List.foldl_append, hinside]
  rfl

theorem foldl_literals (read : List (List Char)) (value : List Char) (values : List (List Char)) :
    ([','].intercalate ((value :: values).map literal) ++ [')']).foldl step (opened read) =
      ended (read ++ value :: values) := by
  induction values generalizing read value with
  | nil =>
      rw [List.map_singleton, List.intercalate_singleton, List.foldl_append, foldl_literal]
      rfl
  | cons second rest ih =>
      rw [List.map_cons, List.map_cons, List.intercalate_cons_cons, List.append_assoc,
        List.append_assoc, List.foldl_append, foldl_literal]
      have hnext := ih (read ++ [value]) second
      rw [List.append_assoc, List.map_cons] at hnext
      exact hnext

/-- **A list of at least one literal is read back.** -/
theorem lex_render {values : List (List Char)} (h : values ≠ []) :
    lex (render values) = some values := by
  cases values with
  | nil => exact absurd rfl h
  | cons value values =>
      have hlist := foldl_literals [] value values
      rw [List.nil_append] at hlist
      have hread : (render (value :: values)).foldl step start = ended (value :: values) := hlist
      rw [lex, hread]

example : lex "('it''s','b')".toList = some ["it's".toList, "b".toList] := by decide

/-! ## What is read takes its space -/

/-- The characters it takes to write the values, each with the comma or the
bracket after it. -/
def size (values : List (List Char)) : Nat := (values.flatMap fun v => literal v ++ [',']).length

theorem size_cons (value : List Char) (values : List (List Char)) :
    size (value :: values) = (literal value).length + 1 + size values := by
  rw [size, List.flatMap_cons, List.length_append, List.length_append]
  rfl

theorem size_concat (values : List (List Char)) (value : List Char) :
    size (values ++ [value]) = size values + (escape value).length + 3 := by
  simp only [size, literal, List.flatMap_append, List.flatMap_singleton, List.cons_append,
    List.length_cons, List.length_append, List.length_nil]
  omega

/-- The characters it takes at least to get there. -/
def weight : State → Nat
  | start => 0
  | opened values => size values + 1
  | inside values value => size values + (escape value).length + 2
  | quoted values value => size values + (escape value).length + 3
  | closed values => size values
  | ended values => size values + 1
  | failed => 0

theorem weight_step (s : State) (c : Char) : weight (step s c) ≤ weight s + 1 := by
  cases s with
  | start =>
      rw [step]
      split
      · exact Nat.le_refl 1
      · split <;> exact Nat.zero_le _
  | opened values =>
      rw [step]
      split
      · exact Nat.le_refl _
      · split
        · exact Nat.le_succ _
        · exact Nat.zero_le _
  | inside values value =>
      rw [step]
      split
      · exact Nat.le_refl _
      · next hc =>
          have hone : escape [c] = [c] :=
            escape_of_no_quote (mt List.mem_singleton.mp (Ne.symm hc))
          simp only [weight, escape_append, hone, List.length_append, List.length_singleton]
          omega
  | quoted values value =>
      rw [step]
      split
      · have htwo : (escape ['\'']).length = 2 := rfl
        simp only [weight, escape_append, htwo, List.length_append]
        omega
      · split
        · exact Nat.le_of_eq (congrArg (· + 1) (size_concat values value))
        · split
          · exact Nat.le_of_eq (congrArg (· + 1) (size_concat values value))
          · split
            · rw [weight, weight, size_concat]
              exact Nat.le_succ _
            · exact Nat.zero_le _
  | closed values =>
      rw [step]
      split
      · exact Nat.le_refl _
      · split
        · exact Nat.le_refl _
        · split
          · exact Nat.le_succ _
          · exact Nat.zero_le _
  | ended values =>
      rw [step]
      split
      · exact Nat.le_succ _
      · exact Nat.zero_le _
  | failed => exact Nat.zero_le _

theorem weight_foldl (text : List Char) (s : State) :
    weight (text.foldl step s) ≤ weight s + text.length := by
  induction text generalizing s with
  | nil => exact Nat.le_refl _
  | cons c text ih =>
      have hstep := weight_step s c
      have hrest := ih (step s c)
      rw [List.foldl_cons, List.length_cons]
      omega

/-- **A text that is read as some values is no shorter than they are written.** -/
theorem lex_size {text : List Char} {values : List (List Char)} (h : lex text = some values) :
    size values + 1 ≤ text.length := by
  have hweight := weight_foldl text start
  unfold lex at h
  split at h
  · next values' hread =>
      cases h
      rw [hread] at hweight
      simpa [weight] using hweight
  · cases h

end SqlLiterals
