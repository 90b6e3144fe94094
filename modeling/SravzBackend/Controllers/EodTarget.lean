/-
# `Controllers.EodTarget` — the target a fund is fetched from

`FetchDataAndSaveToS3` puts the code it has made of an id, and the configured
key, into the text of a target as they are.  Only the number of the parts of
the id has been looked at, so any character may be in them.

`eodTarget_addresses_iff` says for which ids and keys the target is the one of
the code.  Segments are compared as they are parsed; what a server makes of a
segment `.` or `..` is not asked.
-/
import SravzBackend.Controllers.Fundamentals
import SravzBackend.Lib.OriginForm

namespace SravzBackend.FundamentalsController

open OriginForm (PlainSegment PlainKey PlainValue)

def eodSegments (code : Str) : List Str := ["api".toList, "eod".toList, code]

def eodPairs (apiKey : Str) : List (Str × Str) :=
  [("api_token".toList, apiKey), ("order".toList, "d".toList), ("fmt".toList, "json".toList)]

/-- The target is parsed, its path is `/api/eod/` and the code, decoded segment
by segment, and its query is the three pairs. -/
def Addresses (target apiKey code : Str) : Prop :=
  OriginForm.parse target = some ⟨eodSegments code, eodPairs apiKey⟩

/-- The parts of an id that a code is made of stand for themselves in a path. -/
def PlainParts (sravzID : Str) : Prop :=
  ∀ part ∈ (getStringTokens sravzID).tail, PlainSegment part

instance (sravzID : Str) : Decidable (PlainParts sravzID) := List.decidableBAll _ _

/-- The text of two segments and a third, and of a pair and two more. -/
theorem append_eq_write {a b k k₂ v₂ k₃ v₃ front middle back : Str}
    (hfront : front = '/' :: (a ++ '/' :: (b ++ ['/']))) (hmiddle : middle = '?' :: (k ++ ['=']))
    (hback : back = '&' :: (k₂ ++ '=' :: (v₂ ++ '&' :: (k₃ ++ '=' :: v₃)))) (code key : Str) :
    front ++ code ++ middle ++ key ++ back =
      OriginForm.write [a, b, code] [(k, key), (k₂, v₂), (k₃, v₃)] := by
  subst hfront hmiddle hback
  simp [OriginForm.write, OriginForm.writePath, OriginForm.writePair]

theorem eodTarget_eq_write (apiKey code : Str) :
    eodTarget apiKey code = OriginForm.write (eodSegments code) (eodPairs apiKey) :=
  append_eq_write (by decide) (by decide) (by decide) code apiKey

/-- A code is plain when the parts it is made of are. -/
theorem plainSegment_code_iff {sravzID code : Str}
    (hcode : convertMutualFundSravzIDToCode sravzID = .ok code) :
    PlainSegment code ↔ PlainParts sravzID := by
  obtain ⟨a, b, c, htokens, rfl⟩ := convert_eq_ok_iff.mp hcode
  have hdot : PlainSegment ".".toList := by decide
  rw [PlainParts, htokens, List.tail_cons, List.forall_mem_cons, List.forall_mem_singleton,
    OriginForm.plainSegment_append, OriginForm.plainSegment_append, toUpper, toUpper,
    OriginForm.plainSegment_map_toUpper, OriginForm.plainSegment_map_toUpper]
  exact ⟨fun ⟨⟨hc, _⟩, hb⟩ => ⟨hb, hc⟩, fun ⟨hb, hc⟩ => ⟨⟨hc, hdot⟩, hb⟩⟩

/-- **The target of an id that is converted addresses its code exactly when the
parts of the id, and the key, are plain.** -/
theorem eodTarget_addresses_iff (apiKey : Str) {sravzID code : Str}
    (hcode : convertMutualFundSravzIDToCode sravzID = .ok code) :
    Addresses (eodTarget apiKey code) apiKey code ↔ PlainParts sravzID ∧ PlainValue apiKey := by
  have hsegments : eodSegments code ≠ [] := List.cons_ne_nil _ _
  have hpairs : eodPairs apiKey ≠ [] := List.cons_ne_nil _ _
  have hwords : PlainSegment "api".toList ∧ PlainSegment "eod".toList := by
    decide
  have hkeys : PlainKey "api_token".toList ∧ PlainKey "order".toList ∧
      PlainValue "d".toList ∧ PlainKey "fmt".toList ∧ PlainValue "json".toList := by
    decide
  rw [Addresses, eodTarget_eq_write,
    OriginForm.parse_write_iff hsegments hpairs, ← plainSegment_code_iff hcode]
  simp only [eodSegments, eodPairs, List.forall_mem_cons, List.not_mem_nil, false_implies,
    implies_true, and_true]
  obtain ⟨hapi, heod⟩ := hwords
  obtain ⟨htoken, horder, hd, hfmt, hjson⟩ := hkeys
  constructor
  · rintro ⟨⟨_, _, hplain⟩, ⟨_, hvalue⟩, _⟩
    exact ⟨hplain, hvalue⟩
  · rintro ⟨hplain, hvalue⟩
    exact ⟨⟨hapi, heod, hplain⟩, ⟨htoken, hvalue⟩, ⟨horder, hd⟩, hfmt, hjson⟩

theorem plain_fund_addressed :
    Addresses (eodTarget "k1.x".toList "AAAXC.US".toList) "k1.x".toList "AAAXC.US".toList :=
  (eodTarget_addresses_iff "k1.x".toList
    (by decide : convertMutualFundSravzIDToCode "fund_us_aaaxc".toList = _)).mpr (by decide)

/-- A `?` in an id ends the path, and the key becomes part of another value. -/
theorem question_mark_swallows_key :
    convertMutualFundSravzIDToCode "fund_us_x?api-token=1&a=".toList =
        .ok "X?API-TOKEN=1&A=.US".toList ∧
      OriginForm.parse (eodTarget "k".toList "X?API-TOKEN=1&A=.US".toList) =
        some ⟨["api".toList, "eod".toList, "X".toList],
          [("API-TOKEN".toList, "1".toList), ("A".toList, ".US?api_token=k".toList),
            ("order".toList, "d".toList), ("fmt".toList, "json".toList)]⟩ ∧
      ¬ Addresses (eodTarget "k".toList "X?API-TOKEN=1&A=.US".toList) "k".toList
          "X?API-TOKEN=1&A=.US".toList := by
  have hparse : OriginForm.parse (eodTarget "k".toList "X?API-TOKEN=1&A=.US".toList) =
      some ⟨["api".toList, "eod".toList, "X".toList],
        [("API-TOKEN".toList, "1".toList), ("A".toList, ".US?api_token=k".toList),
          ("order".toList, "d".toList), ("fmt".toList, "json".toList)]⟩ := by
    decide
  refine ⟨by decide, hparse, ?_⟩
  unfold Addresses
  rw [hparse]
  decide

end SravzBackend.FundamentalsController
