/-
# `Lib.OriginForm` — the target of an HTTP request

An origin-form target is a path, `/` before every segment, and a query behind
`?`, pairs `key=value` with `&` between two.  Segments, keys and values may be
percent-encoded, and in the query `+` stands for a space.

`parse` reads a target and `write` puts segments and pairs together as they
are, without encoding anything.  `parse_write_iff`: they are read back exactly
when each is plain, made of characters that stand for themselves where it is.
-/
import Mathlib.Data.List.Forall2
import SravzBackend.Lib.Pieces

namespace OriginForm

/-! ## Characters -/

/-- Letters, digits and the marks that may stand in a segment. -/
def isPchar (c : Char) : Bool := c.isAlphanum || "-._~!$&'()*+,;=:@".toList.contains c

def isQueryChar (c : Char) : Bool := isPchar c || c == '/' || c == '?'

/-- What a character of a segment that is not `%` stands for. -/
def segmentChar (c : Char) : Option Char := if isPchar c then some c else none

/-- What a character of a key or a value that is not `%` stands for. -/
def queryChar (c : Char) : Option Char :=
  if c = '+' then some ' ' else if isQueryChar c then some c else none

def hexValue (c : Char) : Option Nat :=
  if c.isDigit then some (c.toNat - '0'.toNat)
  else if 'a' ≤ c ∧ c ≤ 'f' then some (c.toNat - 'a'.toNat + 10)
  else if 'A' ≤ c ∧ c ≤ 'F' then some (c.toNat - 'A'.toNat + 10)
  else none

/-! ## Percent-decoding -/

variable {accept : Char → Option Char}

/-- The text is read with `accept` for what is not encoded. -/
def decode (accept : Char → Option Char) : List Char → Option (List Char)
  | [] => some []
  | '%' :: high :: low :: rest => do
      let h ← hexValue high
      let l ← hexValue low
      return Char.ofNat (16 * h + l) :: (← decode accept rest)
  | c :: rest => do
      let c' ← accept c
      return c' :: (← decode accept rest)

/-- No text is shorter than what it stands for. -/
theorem length_decode_le {text out : List Char} (h : decode accept text = some out) :
    out.length ≤ text.length := by
  induction text using decode.induct generalizing out with
  | case1 =>
      cases h
      exact Nat.le_refl 0
  | case2 high low rest ih =>
      rw [decode] at h
      simp only [Option.bind_eq_bind, Option.pure_def, Option.bind_eq_some_iff] at h
      obtain ⟨x, _, y, _, out', hout', hcons⟩ := h
      cases hcons
      have hle := ih hout'
      simp only [List.length_cons]
      omega
  | case3 c rest hno ih =>
      rw [decode] at h
      · simp only [Option.bind_eq_bind, Option.pure_def, Option.bind_eq_some_iff] at h
        obtain ⟨c', _, out', hout', hcons⟩ := h
        cases hcons
        exact Nat.succ_le_succ (ih hout')
      · exact hno

/-- A text stands for itself when each of its characters does. -/
theorem decode_eq_self_iff (haccept : accept '%' = none) {text : List Char} :
    decode accept text = some text ↔ ∀ c ∈ text, accept c = some c := by
  induction text using decode.induct with
  | case1 => simp [decode]
  | case2 high low rest _ =>
      refine iff_of_false ?_ ?_
      · -- what the rest stands for is too short
        intro h
        rw [decode] at h
        simp only [Option.bind_eq_bind, Option.pure_def, Option.bind_eq_some_iff] at h
        obtain ⟨x, _, y, _, out', hout', hcons⟩ := h
        have hle := length_decode_le hout'
        rw [(List.cons.inj (Option.some.inj hcons)).2, List.length_cons, List.length_cons] at hle
        omega
      · intro h
        have hpercent := h '%' List.mem_cons_self
        rw [haccept] at hpercent
        cases hpercent
  | case3 c rest hno ih =>
      rw [decode]
      · rw [List.forall_mem_cons, ← ih]
        simp only [Option.bind_eq_bind, Option.pure_def, Option.bind_eq_some_iff]
        constructor
        · rintro ⟨c', hc, out', hout', hcons⟩
          cases hcons
          exact ⟨hc, hout'⟩
        · rintro ⟨hc, hrest⟩
          exact ⟨c, hc, rest, hrest, rfl⟩
      · exact hno

/-- The segment stands for itself. -/
def PlainSegment (s : List Char) : Prop := ∀ c ∈ s, isPchar c

/-- The value stands for itself. -/
def PlainValue (s : List Char) : Prop := ∀ c ∈ s, isQueryChar c ∧ c ≠ '+' ∧ c ≠ '&'

def PlainKey (s : List Char) : Prop := PlainValue s ∧ '=' ∉ s

instance (s : List Char) : Decidable (PlainSegment s) := List.decidableBAll _ s

instance (s : List Char) : Decidable (PlainValue s) := List.decidableBAll _ s

instance (s : List Char) : Decidable (PlainKey s) :=
  inferInstanceAs (Decidable (PlainValue s ∧ '=' ∉ s))

theorem decode_segment_iff {s : List Char} :
    decode segmentChar s = some s ↔ PlainSegment s := by
  rw [decode_eq_self_iff (by decide)]
  refine forall_congr' fun c => forall_congr' fun _ => ?_
  unfold segmentChar
  split
  · next h => exact iff_of_true rfl h
  · next h => exact iff_of_false nofun h

theorem decode_query_iff {s : List Char} (h : '&' ∉ s) :
    decode queryChar s = some s ↔ PlainValue s := by
  rw [decode_eq_self_iff (by decide)]
  refine forall_congr' fun c => forall_congr' fun hc => ?_
  have hamp : c ≠ '&' := fun heq => h (heq ▸ hc)
  unfold queryChar
  split
  · next hplus =>
      refine iff_of_false ?_ fun hplain => hplain.2.1 hplus
      rw [hplus]
      decide
  · next hplus =>
      split
      · next hquery => exact iff_of_true rfl ⟨hquery, hplus, hamp⟩
      · next hquery => exact iff_of_false nofun fun hplain => hquery hplain.1

/-! ## Cutting at the first of a character -/

/-- What stands before the first `sep`, and what stands behind it. -/
def cut (sep : Char) (text : List Char) : List Char × List Char :=
  (text.takeWhile (· != sep), (text.dropWhile (· != sep)).drop 1)

theorem cut_append {sep : Char} {front : List Char} (h : sep ∉ front) (back : List Char) :
    cut sep (front ++ sep :: back) = (front, back) := by
  have hfront : ∀ c ∈ front, (c != sep) = true :=
    fun c hc => bne_iff_ne.mpr fun heq => h (heq ▸ hc)
  rw [cut, List.takeWhile_append_of_pos hfront, List.dropWhile_append_of_pos hfront]
  simp

/-- If the first `sep` is not before the one that was put there, it is that
one. -/
theorem cut_append_iff {sep : Char} (front back : List Char) :
    front.length ≤ (cut sep (front ++ sep :: back)).1.length ↔ sep ∉ front := by
  constructor
  · intro h
    induction front with
    | nil => exact List.not_mem_nil
    | cons c front ih =>
        by_cases hc : c = sep
        · subst hc
          simp [cut] at h
        · have hcut : (cut sep (c :: front ++ sep :: back)).1 =
              c :: (cut sep (front ++ sep :: back)).1 :=
            List.takeWhile_cons_of_pos (p := (· != sep)) (bne_iff_ne.mpr hc)
          rw [hcut] at h
          rw [List.mem_cons, not_or]
          exact ⟨Ne.symm hc, ih (Nat.le_of_succ_le_succ h)⟩
  · intro h
    have hcut : (cut sep (front ++ sep :: back)).1 = front :=
      congrArg Prod.fst (cut_append h back)
    exact Nat.le_of_eq (congrArg List.length hcut.symm)

/-! ## Reading and writing -/

/-- Segments, and pairs of a key and a value. -/
structure Target where
  segments : List (List Char)
  pairs : List (List Char × List Char)
deriving DecidableEq

def readPath : List Char → Option (List (List Char))
  | '/' :: rest => (rest.splitOn '/').mapM (decode segmentChar)
  | _ => none

def readPair (text : List Char) : Option (List Char × List Char) := do
  let (key, value) := cut '=' text
  return (← decode queryChar key, ← decode queryChar value)

/-- A target without `?` has no pairs. -/
def parse (text : List Char) : Option Target := do
  let (path, query) := cut '?' text
  let segments ← readPath path
  let pairs ← if text.contains '?' then (query.splitOn '&').mapM readPair else some []
  return ⟨segments, pairs⟩

def writePath (segments : List (List Char)) : List Char := '/' :: ['/'].intercalate segments

def writePair (pair : List Char × List Char) : List Char := pair.1 ++ '=' :: pair.2

def write (segments : List (List Char)) (pairs : List (List Char × List Char)) : List Char :=
  writePath segments ++ '?' :: ['&'].intercalate (pairs.map writePair)

/-! ## What is written plainly is read back, and nothing else -/

theorem mapM_eq_some_iff {α β : Type*} {f : α → Option β} {xs : List α} {ys : List β} :
    xs.mapM f = some ys ↔ List.Forall₂ (fun x y => f x = some y) xs ys := by
  induction xs generalizing ys with
  | nil =>
      rw [List.mapM_nil, List.forall₂_nil_left_iff]
      exact ⟨fun h => (Option.some.inj h).symm, fun h => congrArg some h.symm⟩
  | cons x xs ih =>
      simp only [List.mapM_cons, Option.bind_eq_bind, Option.pure_def, Option.bind_eq_some_iff,
        List.forall₂_cons_left_iff]
      constructor
      · rintro ⟨y, hy, rest, hrest, hcons⟩
        exact ⟨y, rest, hy, ih.mp hrest, (Option.some.inj hcons).symm⟩
      · rintro ⟨y, rest, hy, hrest, rfl⟩
        exact ⟨y, hy, rest, ih.mpr hrest, rfl⟩

/-- A list is read as itself when each of its elements is. -/
theorem mapM_map_eq_self_iff {α β : Type*} {f : β → Option α} {g : α → β} {xs : List α} :
    (xs.map g).mapM f = some xs ↔ ∀ x ∈ xs, f (g x) = some x := by
  rw [mapM_eq_some_iff, List.forall₂_map_left_iff, List.forall₂_same]

theorem mapM_eq_self_iff {α : Type*} {f : α → Option α} {xs : List α} :
    xs.mapM f = some xs ↔ ∀ x ∈ xs, f x = some x := by
  rw [mapM_eq_some_iff, List.forall₂_same]

/-- Segments stand for no more than the path they are read from. -/
theorem length_intercalate_le (sep : Char) {pieces outs : List (List Char)}
    (h : List.Forall₂ (fun piece out => out.length ≤ piece.length) pieces outs) :
    ([sep].intercalate outs).length ≤ ([sep].intercalate pieces).length := by
  induction h with
  | nil => exact Nat.le_refl 0
  | @cons piece out pieces outs hle hrest ih =>
      cases hrest with
      | nil => simpa using hle
      | cons _ _ =>
          rw [List.intercalate_cons_cons, List.intercalate_cons_cons]
          simp only [List.length_append, List.length_singleton]
          omega

theorem not_mem_of_plain {c : Char} (hc : isPchar c = false) {s : List Char}
    (h : PlainSegment s) : c ∉ s := by
  intro hin
  have hplain := h c hin
  rw [hc] at hplain
  cases hplain

theorem question_not_mem_writePath {segments : List (List Char)}
    (h : ∀ s ∈ segments, PlainSegment s) : '?' ∉ writePath segments := by
  rw [writePath, List.mem_cons, not_or]
  refine ⟨by decide, fun hin => ?_⟩
  obtain ⟨s, hs, hin⟩ := (Pieces.mem_intercalate (by decide)).mp hin
  exact not_mem_of_plain (by decide) (h s hs) hin

/-- What is read from a path before a `?` is no longer than the path; so when
it is what was written, the `?` is the one behind the path. -/
theorem readPath_cut_iff {segments : List (List Char)} (hne : segments ≠ []) (query : List Char) :
    readPath (cut '?' (writePath segments ++ '?' :: query)).1 = some segments ↔
      ∀ s ∈ segments, PlainSegment s := by
  constructor
  · intro h
    rcases hpath : (cut '?' (writePath segments ++ '?' :: query)).1 with _ | ⟨c, rest⟩
    · rw [hpath] at h
      cases h
    · rw [hpath] at h
      unfold readPath at h
      split at h
      · next rest' heq =>
          cases heq
          have hread := mapM_eq_some_iff.mp h
          have hlength := length_intercalate_le '/'
            (hread.imp fun _ _ hdecode => length_decode_le hdecode)
          rw [List.intercalate_splitOn] at hlength
          have hcut : '?' ∉ writePath segments := by
            refine (cut_append_iff _ query).mp ?_
            rw [hpath, writePath]
            exact Nat.succ_le_succ hlength
          rw [cut_append hcut] at hpath
          cases hpath
          have hpieces := Pieces.splitOn_intercalate_of_length hne hread.length_eq
          rw [hpieces] at h
          exact fun s hs => decode_segment_iff.mp (mapM_eq_self_iff.mp h s hs)
      · cases h
  · intro h
    rw [cut_append (question_not_mem_writePath h)]
    show (List.splitOn '/' (['/'].intercalate segments)).mapM (decode segmentChar) = _
    rw [List.splitOn_intercalate '/' (fun s hs => not_mem_of_plain (by decide) (h s hs)) hne]
    exact mapM_eq_self_iff.mpr fun s hs => decode_segment_iff.mpr (h s hs)

theorem readPair_writePair_iff {key value : List Char} (h : '&' ∉ writePair (key, value)) :
    readPair (writePair (key, value)) = some (key, value) ↔ PlainKey key ∧ PlainValue value := by
  rw [writePair, List.mem_append, List.mem_cons, not_or, not_or] at h
  obtain ⟨hkey, _, hvalue⟩ := h
  have hread : '=' ∉ key → (readPair (writePair (key, value)) = some (key, value) ↔
      decode queryChar key = some key ∧ decode queryChar value = some value) := by
    intro heq
    rw [readPair, writePair, cut_append heq]
    simp only [Option.bind_eq_bind, Option.pure_def, Option.bind_eq_some_iff]
    constructor
    · rintro ⟨key', hkey', value', hvalue', hpair⟩
      cases hpair
      exact ⟨hkey', hvalue'⟩
    · rintro ⟨hkey', hvalue'⟩
      exact ⟨key, hkey', value, hvalue', rfl⟩
  rw [PlainKey, ← decode_query_iff hkey, ← decode_query_iff hvalue]
  constructor
  · intro hpair
    have heq : '=' ∉ key := by
      refine (cut_append_iff _ value).mp ?_
      rw [readPair] at hpair
      simp only [Option.bind_eq_bind, Option.pure_def, Option.bind_eq_some_iff] at hpair
      obtain ⟨key', hkey', value', _, heq⟩ := hpair
      cases heq
      exact length_decode_le hkey'
    obtain ⟨hkey', hvalue'⟩ := (hread heq).mp hpair
    exact ⟨⟨hkey', heq⟩, hvalue'⟩
  · rintro ⟨⟨hkey', heq⟩, hvalue'⟩
    exact (hread heq).mpr ⟨hkey', hvalue'⟩

theorem readQuery_iff {pairs : List (List Char × List Char)} (hne : pairs ≠ []) :
    ((['&'].intercalate (pairs.map writePair)).splitOn '&').mapM readPair = some pairs ↔
      ∀ pair ∈ pairs, PlainKey pair.1 ∧ PlainValue pair.2 := by
  have hmap : pairs.map writePair ≠ [] := mt List.map_eq_nil_iff.mp hne
  -- both ways, the text is cut where it was put together
  have hread : (∀ pair ∈ pairs, '&' ∉ writePair pair) →
      (((pairs.map writePair).mapM readPair = some pairs) ↔
        ∀ pair ∈ pairs, PlainKey pair.1 ∧ PlainValue pair.2) := by
    intro hamp
    rw [mapM_map_eq_self_iff]
    exact forall_congr' fun pair => forall_congr' fun hpair =>
      readPair_writePair_iff (hamp pair hpair)
  constructor
  · intro h
    have hlength := (mapM_eq_some_iff.mp h).length_eq
    have hpieces := Pieces.splitOn_intercalate_of_length hmap
      (hlength.trans (List.length_map writePair).symm)
    rw [hpieces] at h
    refine (hread fun pair hpair => ?_).mp h
    refine Pieces.sep_not_mem_piece (['&'].intercalate (pairs.map writePair)) _ ?_
    rw [hpieces]
    exact List.mem_map_of_mem hpair
  · intro h
    have hamp : ∀ pair ∈ pairs, '&' ∉ writePair pair := by
      intro pair hpair hin
      obtain ⟨⟨hkey, _⟩, hvalue⟩ := h pair hpair
      rcases List.mem_append.mp hin with hin | hin
      · exact (hkey '&' hin).2.2 rfl
      · rcases List.mem_cons.mp hin with heq | hin
        · cases heq
        · exact (hvalue '&' hin).2.2 rfl
    rw [List.splitOn_intercalate '&' (List.forall_mem_map.mpr hamp) hmap]
    exact (hread hamp).mpr h

/-- **Segments and pairs that are put together as they are, are read back
exactly when each of them is plain.** -/
theorem parse_write_iff {segments : List (List Char)} {pairs : List (List Char × List Char)}
    (hsegments : segments ≠ []) (hpairs : pairs ≠ []) :
    parse (write segments pairs) = some ⟨segments, pairs⟩ ↔
      (∀ s ∈ segments, PlainSegment s) ∧
        ∀ pair ∈ pairs, PlainKey pair.1 ∧ PlainValue pair.2 := by
  rw [← readPath_cut_iff hsegments (['&'].intercalate (pairs.map writePair)),
    ← readQuery_iff hpairs]
  have hquestion : (write segments pairs).contains '?' = true :=
    List.contains_iff_mem.mpr (List.mem_append_right _ List.mem_cons_self)
  -- the query is what stands behind the path once the path is what it should be
  have hquery : readPath (cut '?' (write segments pairs)).1 = some segments →
      (cut '?' (write segments pairs)).2 = ['&'].intercalate (pairs.map writePair) := by
    intro hpath
    have hplain := (readPath_cut_iff hsegments _).mp hpath
    rw [write, cut_append (question_not_mem_writePath hplain)]
  unfold parse
  simp only [Option.bind_eq_bind, Option.pure_def, Option.bind_eq_some_iff, hquestion, if_true]
  constructor
  · rintro ⟨segments', hpath, pairs', hread, htarget⟩
    cases htarget
    rw [hquery hpath] at hread
    exact ⟨hpath, hread⟩
  · rintro ⟨hpath, hread⟩
    refine ⟨segments, hpath, pairs, ?_, rfl⟩
    rw [hquery hpath]
    exact hread

/-- A segment and a value that are not plain. -/
example : parse "/a%2Fb/c?x=1+2&y=".toList =
    some ⟨["a/b".toList, "c".toList], [("x".toList, "1 2".toList), ("y".toList, [])]⟩ := by
  decide

/-! ## Upper case -/

/-- Whether a segment is plain does not depend on the case of its letters. -/
theorem isPchar_toUpper (c : Char) : isPchar c.toUpper = isPchar c := by
  have hletters : ∀ n < 26, isPchar (Char.ofNat ('a'.toNat + n)).toUpper =
      isPchar (Char.ofNat ('a'.toNat + n)) := by
    decide
  by_cases h : 'a'.val ≤ c.val ∧ c.val ≤ 'z'.val
  · have hlow : 'a'.toNat ≤ c.toNat := h.1
    have hhigh : c.toNat ≤ 'z'.toNat := h.2
    have hlast : 'z'.toNat = 'a'.toNat + 25 := rfl
    have hletter := hletters (c.toNat - 'a'.toNat) (by omega)
    rwa [Nat.add_sub_cancel' hlow, Char.ofNat_toNat] at hletter
  · have hsame : c.toUpper = c := dif_neg h
    rw [hsame]

theorem plainSegment_map_toUpper {s : List Char} :
    PlainSegment (s.map Char.toUpper) ↔ PlainSegment s := by
  unfold PlainSegment
  rw [List.forall_mem_map]
  refine forall_congr' fun c => forall_congr' fun _ => ?_
  rw [isPchar_toUpper]

theorem plainSegment_append {s t : List Char} :
    PlainSegment (s ++ t) ↔ PlainSegment s ∧ PlainSegment t :=
  List.forall_mem_append

end OriginForm
