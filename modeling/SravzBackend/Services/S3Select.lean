/-
# `Services.S3Select` — the query for the rows with given values, and its rows

`S3Client::s3select` writes the values it is given into an SQL expression, and
puts the rows that S3 streams back into a JSON array.

`selectsValues_iff` says for which values the expression asks for them, and
`s3select_eq` that the array is the same however the stream is cut.
-/
import Mathlib.Data.List.TakeWhile
import SravzBackend.Lib.SqlLiterals
import SravzBackend.Utils

namespace SravzBackend.Services

/-- The parts of the request that its caller or the source decides. -/
structure SelectObjectContentRequest where
  bucket : Str
  key : Str
  expression : Str
  recordDelimiter : Str

/-- How the request goes: the payloads the callback is given, in order, and
whether it succeeds. -/
structure SelectObjectContentOutcome where
  payloads : List Str
  isSuccess : Bool

namespace S3Client

/-- The loop over the values. -/
def appendParams (inClause : Str) : List Str → Str
  | [] => inClause
  | [param] => inClause ++ ("'".toList ++ param ++ "'".toList)
  | param :: second :: rest =>
      appendParams (inClause ++ ("'".toList ++ param ++ "'".toList) ++ ",".toList) (second :: rest)

/-- What stands behind `IN`. -/
def inList (inClause : Str) : Str :=
  appendParams "(".toList (getlines ',' inClause) ++ ")".toList

def selectExpression (column inClause : Str) : Str :=
  if inClause.isEmpty then "SELECT * FROM S3Object".toList
  else "SELECT * FROM S3Object WHERE ".toList ++ column ++ " IN ".toList ++ inList inClause

def selectRequest (bucket key column inClause : Str) : SelectObjectContentRequest where
  bucket := bucket
  key := key
  expression := selectExpression column inClause
  recordDelimiter := ",".toList

/-- The `RecordsEvent` callback.  The payload goes through `c_str`. -/
def onRecords (buffer payload : Str) : Str := buffer ++ payload.takeWhile (· != '\x00')

/-- What is returned for the text that has been received. -/
def closeArray (output : Str) : Str :=
  (if output.getLast? = some ',' then output.dropLast else output) ++ "]".toList

/-- `S3Client::s3select`; that the request failed is only logged. -/
def s3select (selectObjectContent : SelectObjectContentRequest → SelectObjectContentOutcome)
    (bucket key column inClause : Str) : Str :=
  let outcome := selectObjectContent (selectRequest bucket key column inClause)
  closeArray (outcome.payloads.foldl onRecords "[".toList)

/-! ## The expression -/

/-- A value between two quotes. -/
def quote (param : Str) : Str := '\'' :: param ++ ['\'']

theorem appendParams_eq (inClause : Str) (params : List Str) :
    appendParams inClause params = inClause ++ [','].intercalate (params.map quote) := by
  induction params generalizing inClause with
  | nil => simp [appendParams]
  | cons param params ih =>
      cases params with
      | nil => simp [appendParams, quote]
      | cons second rest =>
          rw [appendParams, ih, List.map_cons, List.map_cons, List.map_cons,
            List.intercalate_cons_cons]
          simp [quote]

theorem inList_eq (inClause : Str) :
    inList inClause = '(' :: [','].intercalate ((getlines ',' inClause).map quote) ++ [')'] := by
  rw [inList, appendParams_eq]
  rfl

/-- A value is written as a literal when there is no quote in it. -/
theorem quote_eq_literal {param : Str} (h : '\'' ∉ param) :
    quote param = SqlLiterals.literal param := by
  rw [quote, SqlLiterals.literal, SqlLiterals.escape_of_no_quote h]

/-- The list is shorter than its values as literals, by one character for
every quote in a value. -/
theorem size_eq {inClause : Str} (h : inClause ≠ []) :
    SqlLiterals.size (getlines ',' inClause) + 1 =
      (inList inClause).length + (getlines ',' inClause).flatten.count '\'' := by
  have hne : (getlines ',' inClause).map quote ≠ [] :=
    mt List.map_eq_nil_iff.mp (getlines_ne_nil h)
  have hlist : (inList inClause).length =
      1 + (((getlines ',' inClause).map quote).map (· ++ [','])).flatten.length := by
    rw [Pieces.flatten_terminated ',' hne, inList_eq, List.length_append, List.length_append,
      List.length_cons, List.length_singleton, List.length_singleton]
    omega
  have hliterals : ∀ values : List Str, SqlLiterals.size values =
      ((values.map quote).map (· ++ [','])).flatten.length + values.flatten.count '\'' := by
    intro values
    induction values with
    | nil => rfl
    | cons value values ih =>
        have hone : (SqlLiterals.literal value).length =
            (quote value).length + value.count '\'' := by
          simp only [SqlLiterals.literal, quote, List.cons_append, List.length_cons,
            List.length_append, SqlLiterals.length_escape]
          omega
        rw [SqlLiterals.size_cons, ih, hone]
        simp only [List.map_cons, List.flatten_cons, List.length_append, List.length_singleton,
          List.count_append]
        omega
  have hsize := hliterals (getlines ',' inClause)
  omega

/-- What the expression must be: behind `IN` stands a list that reads as the
values. -/
def SelectsValues (expression column inClause : Str) : Prop :=
  ∃ list, expression =
      "SELECT * FROM S3Object WHERE ".toList ++ column ++ " IN ".toList ++ list ∧
    SqlLiterals.lex list = some (getlines ',' inClause)

/-- **The expression asks for the values exactly when there is no quote in
them.** -/
theorem selectsValues_iff (bucket key column : Str) {inClause : Str} (h : inClause ≠ []) :
    SelectsValues (selectRequest bucket key column inClause).expression column inClause ↔
      '\'' ∉ inClause := by
  have hexpression : (selectRequest bucket key column inClause).expression =
      "SELECT * FROM S3Object WHERE ".toList ++ column ++ " IN ".toList ++ inList inClause :=
    if_neg (by rwa [List.isEmpty_iff])
  rw [hexpression]
  constructor
  · rintro ⟨list, hlist, hlex⟩ hquote
    rw [← List.append_cancel_left hlist] at hlex
    have hsize := SqlLiterals.lex_size hlex
    have hcount := size_eq h
    obtain ⟨value, hvalue, hin⟩ := (mem_line_iff (by decide : '\'' ≠ ',')).mpr hquote
    have hpos : 0 < (getlines ',' inClause).flatten.count '\'' :=
      List.count_pos_iff.mpr (List.mem_flatten.mpr ⟨value, hvalue, hin⟩)
    omega
  · intro hquote
    refine ⟨inList inClause, rfl, ?_⟩
    have hliterals : (getlines ',' inClause).map quote =
        (getlines ',' inClause).map SqlLiterals.literal :=
      List.map_congr_left fun value hvalue => quote_eq_literal fun hin =>
        hquote ((mem_line_iff (by decide : '\'' ≠ ',')).mp ⟨value, hvalue, hin⟩)
    rw [inList_eq, hliterals]
    exact SqlLiterals.lex_render (getlines_ne_nil h)

/-- Two plain tickers. -/
theorem plain_tickers_selected :
    SelectsValues (selectRequest "b".toList "k".toList "SravzId".toList
        "stk_us_aapl,stk_us_t".toList).expression "SravzId".toList "stk_us_aapl,stk_us_t".toList :=
  (selectsValues_iff "b".toList "k".toList "SravzId".toList (by decide)).mpr (by decide)

/-- A quote ends its literal, and what follows it is read as SQL. -/
theorem quote_not_selected :
    (selectRequest "b".toList "k".toList "c".toList "x') OR ('1'='1".toList).expression =
        "SELECT * FROM S3Object WHERE c IN ('x') OR ('1'='1')".toList ∧
      SqlLiterals.lex (inList "x') OR ('1'='1".toList) = none ∧
      ¬ SelectsValues (selectRequest "b".toList "k".toList "c".toList
          "x') OR ('1'='1".toList).expression "c".toList "x') OR ('1'='1".toList := by
  have hlex : SqlLiterals.lex (inList "x') OR ('1'='1".toList) = none := by decide
  refine ⟨by decide, hlex, ?_⟩
  rintro ⟨list, hlist, hread⟩
  have hsame : list = inList "x') OR ('1'='1".toList :=
    (List.append_cancel_left (hlist.symm.trans (by decide :
      _ = "SELECT * FROM S3Object WHERE ".toList ++ "c".toList ++ " IN ".toList ++
        inList "x') OR ('1'='1".toList)))
  rw [hsame, hlex] at hread
  cases hread

/-! ## The rows -/

/-- Without NUL bytes, all that is received is kept. -/
theorem foldl_onRecords {payloads : List Str} (hnul : '\x00' ∉ payloads.flatten) (buffer : Str) :
    payloads.foldl onRecords buffer = buffer ++ payloads.flatten := by
  induction payloads generalizing buffer with
  | nil => simp
  | cons payload payloads ih =>
      rw [List.flatten_cons, List.mem_append, not_or] at hnul
      have hpayload : payload.takeWhile (· != '\x00') = payload :=
        List.takeWhile_eq_self_iff.mpr fun c hc => bne_iff_ne.mpr fun h => hnul.1 (h ▸ hc)
      rw [List.foldl_cons, ih hnul.2, onRecords, hpayload, List.flatten_cons, List.append_assoc]

/-- **However the stream of records is cut into payloads, the array of the
records is returned**, if there is no NUL byte in them. -/
theorem s3select_eq (selectObjectContent : SelectObjectContentRequest → SelectObjectContentOutcome)
    (bucket key column inClause : Str) (records : List Str)
    (hnul : ∀ record ∈ records, '\x00' ∉ record)
    (hcut : (selectObjectContent (selectRequest bucket key column inClause)).payloads.flatten =
      (records.map (· ++ (selectRequest bucket key column inClause).recordDelimiter)).flatten) :
    s3select selectObjectContent bucket key column inClause =
      "[".toList ++ ",".toList.intercalate records ++ "]".toList := by
  have hstream : '\x00' ∉ (records.map (· ++ [','])).flatten := by
    intro hin
    obtain ⟨text, htext, hin⟩ := List.mem_flatten.mp hin
    obtain ⟨record, hrecord, rfl⟩ := List.mem_map.mp htext
    rcases List.mem_append.mp hin with hin | hin
    · exact hnul record hrecord hin
    · cases List.mem_singleton.mp hin
  change _ = (records.map (· ++ [','])).flatten at hcut
  show closeArray (List.foldl onRecords "[".toList
    (selectObjectContent (selectRequest bucket key column inClause)).payloads) = _
  rw [← hcut] at hstream
  rw [foldl_onRecords hstream, hcut]
  cases records with
  | nil => rfl
  | cons record records =>
      -- the last comma is the delimiter of the last record, and is taken away
      rw [Pieces.flatten_terminated ',' (List.cons_ne_nil record records), ← List.append_assoc,
        closeArray, if_pos List.getLast?_concat, List.dropLast_concat]
      rfl

/-- Two records in four payloads, one of them empty, with a cut inside a record
and one before a delimiter. -/
theorem two_records_selected :
    s3select (fun _ => ⟨["1".toList, "2".toList, [], ",3,".toList], true⟩)
        "b".toList "k".toList "c".toList [] = "[12,3]".toList :=
  s3select_eq _ "b".toList "k".toList "c".toList [] ["12".toList, "3".toList] (by decide) rfl

end S3Client

end SravzBackend.Services
