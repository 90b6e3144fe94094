/-
# `Utils` — the string helpers of `utils.cpp`

`ConvertMutualFundSravzIDToCode` takes the id of a fund, `fund_us_aaaxc`, to
the code the data provider knows it by, `AAAXC.US`.

It counts the tokens that a loop over `std::getline` reads, and such a loop
does not read an empty piece at the end while it reads one anywhere else.
`converts_iff` says for which ids the count is the test it should be.
-/
import SravzBackend.Lib.Pieces
import SravzBackend.Text

namespace SravzBackend

/-- The texts a loop over `std::getline(ss, _, delim)` reads: the pieces
between the delimiters, without the last one if nothing is left for it. -/
def getlines (delim : Char) (s : Str) : List Str :=
  let pieces := s.splitOn delim
  if pieces.getLast? = some [] then pieces.dropLast else pieces

def getStringTokens (data : Str) : List Str := getlines '_' data

def toUpper (data : Str) : Str := data.map Char.toUpper

/-- `ConvertMutualFundSravzIDToCode`; the error is the text of the
`InvalidInputException`. -/
def convertMutualFundSravzIDToCode (sravzID : Str) : Except Str Str :=
  match getStringTokens sravzID with
  | [_, country, fund] => .ok (toUpper (fund ++ ".".toList ++ country))
  | _ => .error ("Invalid SravzID: ".toList ++ sravzID ++ ". Cannot generate Code".toList)

/-! ## What `getline` reads -/

/-- Either the last piece is not empty, and all are read, or an empty one
follows those that are. -/
theorem getlines_eq_iff {delim : Char} {s : Str} {lines : List Str} :
    getlines delim s = lines ↔
      (s.splitOn delim = lines ∧ lines.getLast? ≠ some []) ∨ s.splitOn delim = lines ++ [[]] := by
  unfold getlines
  dsimp only
  by_cases hlast : (s.splitOn delim).getLast? = some []
  · rw [if_pos hlast]
    obtain ⟨front, hfront⟩ := List.getLast?_eq_some_iff.mp hlast
    rw [hfront, List.dropLast_concat]
    constructor
    · rintro rfl
      exact .inr rfl
    · rintro (⟨rfl, hno⟩ | h)
      · exact absurd List.getLast?_concat hno
      · exact List.append_cancel_right h
  · rw [if_neg hlast]
    constructor
    · rintro rfl
      exact .inl ⟨rfl, hlast⟩
    · rintro (⟨h, _⟩ | h)
      · exact h
      · rw [h] at hlast
        exact absurd List.getLast?_concat hlast

theorem getlines_ne_nil {delim : Char} {s : Str} (h : s ≠ []) : getlines delim s ≠ [] := by
  intro hnil
  rcases getlines_eq_iff.mp hnil with ⟨hpieces, _⟩ | hpieces
  · exact List.splitOn_ne_nil delim s hpieces
  · exact h (Pieces.splitOn_eq_iff.mp hpieces).2.2.symm

/-- What stands in the texts that are read is what stands in the text, but the
delimiter. -/
theorem mem_line_iff {delim c : Char} (hc : c ≠ delim) {s : Str} :
    (∃ line ∈ getlines delim s, c ∈ line) ↔ c ∈ s := by
  rw [← Pieces.mem_piece_iff hc]
  rcases getlines_eq_iff.mp (rfl : getlines delim s = getlines delim s) with ⟨h, _⟩ | h
  · rw [h]
  · rw [h]
    simp

theorem toUpper_append (a b : Str) : toUpper (a ++ b) = toUpper a ++ toUpper b := List.map_append

/-- A code is what becomes of three tokens. -/
theorem convert_eq_ok_iff {sravzID code : Str} :
    convertMutualFundSravzIDToCode sravzID = .ok code ↔
      ∃ a b c, getStringTokens sravzID = [a, b, c] ∧ code = toUpper c ++ ".".toList ++ toUpper b := by
  have hcode : ∀ b c : Str, toUpper (c ++ ".".toList ++ b) = toUpper c ++ ".".toList ++ toUpper b := by
    intro b c
    rw [toUpper_append, toUpper_append]
    rfl
  unfold convertMutualFundSravzIDToCode
  split
  · next a b c htokens =>
      rw [hcode, htokens]
      constructor
      · rintro ⟨⟩
        exact ⟨a, b, c, rfl, rfl⟩
      · rintro ⟨a', b', c', ⟨⟩, rfl⟩
        rfl
  · next hno =>
      refine iff_of_false nofun ?_
      rintro ⟨a, b, c, htokens, _⟩
      exact hno a b c htokens

example : convertMutualFundSravzIDToCode "fund_us_aaaxc".toList = .ok "AAAXC.US".toList := by
  decide

/-! ## The ids of funds -/

/-- Three parts, none of them empty, with one underscore between two. -/
structure IsFundID (sravzID a b c : Str) : Prop where
  parts : sravzID = a ++ '_' :: (b ++ '_' :: c)
  first : a ≠ [] ∧ '_' ∉ a
  country : b ≠ [] ∧ '_' ∉ b
  fund : c ≠ [] ∧ '_' ∉ c

/-- The code of a fund for its id, and an exception for any other text. -/
def Converts (sravzID : Str) : Prop :=
  (∀ a b c, IsFundID sravzID a b c →
      convertMutualFundSravzIDToCode sravzID = .ok (toUpper c ++ ".".toList ++ toUpper b)) ∧
    ((∀ a b c, ¬ IsFundID sravzID a b c) →
      ∃ what, convertMutualFundSravzIDToCode sravzID = .error what)

/-- Three pieces, the first or the second of them empty, but not the last; or
three pieces and an empty one. -/
def Misread (sravzID : Str) : Prop :=
  ∃ a b c, (sravzID.splitOn '_' = [a, b, c] ∧ c ≠ [] ∧ (a = [] ∨ b = [])) ∨
    sravzID.splitOn '_' = [a, b, c, []]

theorem isFundID_iff {sravzID a b c : Str} :
    IsFundID sravzID a b c ↔ sravzID.splitOn '_' = [a, b, c] ∧ a ≠ [] ∧ b ≠ [] ∧ c ≠ [] := by
  have hjoin : ['_'].intercalate [a, b, c] = a ++ '_' :: (b ++ '_' :: c) := by simp
  rw [Pieces.splitOn_eq_iff, hjoin]
  constructor
  · intro h
    refine ⟨⟨by simp, ?_, h.parts.symm⟩, h.first.1, h.country.1, h.fund.1⟩
    simp only [List.mem_cons, List.not_mem_nil, or_false]
    rintro piece (rfl | rfl | rfl)
    · exact h.first.2
    · exact h.country.2
    · exact h.fund.2
  · rintro ⟨⟨_, hpieces, hparts⟩, ha, hb, hc⟩
    exact ⟨hparts.symm, ⟨ha, hpieces a (by simp)⟩, ⟨hb, hpieces b (by simp)⟩,
      ⟨hc, hpieces c (by simp)⟩⟩

theorem tokens_eq_iff {sravzID a b c : Str} :
    getStringTokens sravzID = [a, b, c] ↔
      (sravzID.splitOn '_' = [a, b, c] ∧ c ≠ []) ∨ sravzID.splitOn '_' = [a, b, c, []] := by
  rw [getStringTokens, getlines_eq_iff]
  simp

/-- **An id is converted, and any other text refused, exactly when it is not
misread: when its pieces are not three of which the first or the second alone
is empty, and not three and an empty one at the end.** -/
theorem converts_iff (sravzID : Str) : Converts sravzID ↔ ¬ Misread sravzID := by
  constructor
  · rintro ⟨_, hother⟩ ⟨a, b, c, hpieces⟩
    have htokens : getStringTokens sravzID = [a, b, c] :=
      tokens_eq_iff.mpr (hpieces.imp_left fun h => ⟨h.1, h.2.1⟩)
    have hno : ∀ a' b' c', ¬ IsFundID sravzID a' b' c' := by
      intro a' b' c' hid
      obtain ⟨hsplit, ha, hb, _⟩ := isFundID_iff.mp hid
      rcases hpieces with ⟨hsplit', _, hempty⟩ | hsplit'
      · cases hsplit.symm.trans hsplit'
        exact hempty.elim ha hb
      · cases hsplit.symm.trans hsplit'
    obtain ⟨what, hwhat⟩ := hother hno
    rw [convert_eq_ok_iff.mpr ⟨a, b, c, htokens, rfl⟩] at hwhat
    cases hwhat
  · intro hread
    constructor
    · intro a b c hid
      obtain ⟨hsplit, _, _, hc⟩ := isFundID_iff.mp hid
      exact convert_eq_ok_iff.mpr ⟨a, b, c, tokens_eq_iff.mpr (.inl ⟨hsplit, hc⟩), rfl⟩
    · intro hno
      cases hconvert : convertMutualFundSravzIDToCode sravzID with
      | error what => exact ⟨what, rfl⟩
      | ok code =>
          obtain ⟨a, b, c, htokens, _⟩ := convert_eq_ok_iff.mp hconvert
          refine absurd ?_ hread
          rcases tokens_eq_iff.mp htokens with ⟨hsplit, hc⟩ | hsplit
          · refine ⟨a, b, c, .inl ⟨hsplit, hc, ?_⟩⟩
            by_contra hfull
            obtain ⟨ha, hb⟩ := not_or.mp hfull
            exact hno a b c (isFundID_iff.mpr ⟨hsplit, ha, hb, hc⟩)
          · exact ⟨a, b, c, .inr hsplit⟩

/-- An underscore at the end, an empty part at the start and one in the middle
are not noticed. -/
theorem trailing_underscore_converted :
    convertMutualFundSravzIDToCode "fund_us_aaaxc_".toList = .ok "AAAXC.US".toList ∧
      convertMutualFundSravzIDToCode "_us_aaaxc".toList = .ok "AAAXC.US".toList ∧
      convertMutualFundSravzIDToCode "fund__aaaxc".toList = .ok "AAAXC.".toList ∧
      ¬ Converts "fund_us_aaaxc_".toList := by
  refine ⟨by decide, by decide, by decide, ?_⟩
  rintro ⟨_, hother⟩
  obtain ⟨what, hwhat⟩ := hother fun a b c hid => by
    have hsplit := (isFundID_iff.mp hid).1
    have hpieces : "fund_us_aaaxc_".toList.splitOn '_' =
        ["fund".toList, "us".toList, "aaaxc".toList, []] := by decide
    cases hpieces.symm.trans hsplit
  have hconvert : convertMutualFundSravzIDToCode "fund_us_aaaxc_".toList =
      .ok "AAAXC.US".toList := by decide
  cases hconvert.symm.trans hwhat

end SravzBackend
