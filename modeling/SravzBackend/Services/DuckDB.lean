/-
# `Services.DuckDB` — queries on parquet objects, and the tables they leave

`DuckDBClient` answers a query on a parquet object of S3 from a table of its
own connection.  The table's name is made of the hashes of the bucket and of
the key; it is loaded from S3 when there is no table of that name, and kept.

`rows_of_first_load`: over every history of requests and overwrites, a request
is answered as by a client without tables, from the object of the first pair
with the same two hashes that could be loaded, as it was then.
-/
import SravzBackend.Lib.Runs
import SravzBackend.Services.World

namespace SravzBackend.Services

/-- The parts of DuckDB and Boost that the client uses: `boost::hash_value`,
what `parquet_scan` makes of an object, and what running `SELECT to_json(t)
FROM t WHERE ...` answers and leaves of the tables. -/
structure Engine where
  hash : Str → UInt64
  parquetScan : Str → Option Rows
  query : (Str → Option Rows) → Str → Str → Except Str Rows × (Str → Option Rows)

namespace DuckDBClient

variable {β : Type} (e : Engine)

/-- The name of the table of a bucket and a key. -/
def tableName (bucketName key : Str) : Str :=
  "sravz_".toList ++ lexicalCast (e.hash bucketName).toNat ++ "_".toList ++
    lexicalCast (e.hash key).toNat

/-- What `CREATE TABLE` loads through the presigned URL of an object, if S3 is
reached. -/
def load (reached : Bool) (w : World β) (bucketName key : Str) : Option Rows :=
  if reached then (w.s3 bucketName key).bind e.parquetScan else none

/-- `CreateTableIfDoesNotExists`; that the statement fails is only printed. -/
def createTableIfDoesNotExists (reached : Bool) (bucketName key table : Str) :
    Call β Unit := do
  let w ← get
  if (w.duckdb table).isNone then
    match load e reached w bucketName key with
    | some rows => modify fun w => { w with duckdb := Function.update w.duckdb table (some rows) }
    | none => return ()

/-- `DuckDBClient::select_from_s3_parquet_file` -/
def selectFromS3ParquetFile (reached : Bool) (bucketName key whereClause : Str) :
    Call β Rows := do
  let table := tableName e bucketName key
  createTableIfDoesNotExists e reached bucketName key table
  let w ← get
  let (result, tables) := e.query w.duckdb table whereClause
  modify fun w => { w with duckdb := tables }
  Call.ofExcept id result

/-! ## Names of tables -/

theorem lexicalCast_natCast (n : Nat) : lexicalCast n = Nat.toDigits 10 n := rfl

theorem toDigits_ten_inj {m n : Nat} (h : Nat.toDigits 10 m = Nat.toDigits 10 n) : m = n := by
  calc
    m = Nat.ofDigitChars 10 (Nat.toDigits 10 m) 0 := Nat.ofDigitChars_ten_toDigits.symm
    _ = Nat.ofDigitChars 10 (Nat.toDigits 10 n) 0 := by rw [h]
    _ = n := Nat.ofDigitChars_ten_toDigits

/-- Around the first of a separator, a text comes apart in one way only. -/
theorem append_cons_inj {c : Char} {l l' r r' : Str} (hl : c ∉ l) (hl' : c ∉ l')
    (h : l ++ c :: r = l' ++ c :: r') : l = l' ∧ r = r' := by
  induction l generalizing l' with
  | nil =>
      cases l' with
      | nil => exact ⟨rfl, (List.cons.inj h).2⟩
      | cons d l' => exact absurd (List.cons.inj h).1 fun hc => hl' (hc ▸ List.mem_cons_self)
  | cons d l ih =>
      cases l' with
      | nil => exact absurd (List.cons.inj h).1.symm fun hc => hl (hc ▸ List.mem_cons_self)
      | cons d' l' =>
          obtain ⟨hd, htail⟩ := List.cons.inj h
          obtain ⟨hll, hr⟩ := ih (fun hc => hl (List.mem_cons_of_mem d hc))
            (fun hc => hl' (List.mem_cons_of_mem d' hc)) htail
          exact ⟨by rw [hd, hll], hr⟩

/-- The two pairs have the same hashes. -/
def HashAlike (bucket key bucket' key' : Str) : Prop :=
  e.hash bucket' = e.hash bucket ∧ e.hash key' = e.hash key

theorem tableName_eq_iff {bucket key bucket' key' : Str} :
    tableName e bucket' key' = tableName e bucket key ↔ HashAlike e bucket key bucket' key' := by
  constructor
  · intro h
    unfold tableName at h
    simp only [lexicalCast_natCast, List.append_assoc] at h
    have h' := List.append_cancel_left h
    obtain ⟨hbucket, hkey⟩ := append_cons_inj Nat.underscore_not_in_toDigits
      Nat.underscore_not_in_toDigits h'
    exact ⟨UInt64.toNat_inj.mp (toDigits_ten_inj hbucket),
      UInt64.toNat_inj.mp (toDigits_ten_inj hkey)⟩
  · intro h
    unfold tableName
    rw [h.1, h.2]

/-! ## What one request does -/

/-- The where clause is a condition on the rows of its table: the query reads
no other table and changes none. -/
structure Plain (whereClause : Str) : Prop where
  tables : ∀ tables table, (e.query tables table whereClause).2 = tables
  rows : ∀ tables tables' table, tables table = tables' table →
    (e.query tables table whereClause).1 = (e.query tables' table whereClause).1

/-- What the query answers when the table has these rows, or is not there. -/
def rowsFrom (table whereClause : Str) (rows : Option Rows) : Except Stop Rows :=
  (e.query (Function.update (fun _ => none) table rows) table whereClause).1.mapError .thrown

/-- The tables when `CreateTableIfDoesNotExists` has returned. -/
def tablesAfter (reached : Bool) (w : World β) (bucket key : Str) : Str → Option Rows :=
  Function.update w.duckdb (tableName e bucket key)
    ((w.duckdb (tableName e bucket key)).or (load e reached w bucket key))

variable {e} in
/-- A request looks up its table, and tries to load one that is not there. -/
theorem tablesAfter_of_eq {bucket key table : Str} (h : tableName e bucket key = table)
    (reached : Bool) (w : World β) :
    tablesAfter e reached w bucket key table =
      (w.duckdb table).or (load e reached w bucket key) := by
  rw [tablesAfter, h, Function.update_self]

variable {e} in
theorem tablesAfter_of_ne {bucket key table : Str} (h : tableName e bucket key ≠ table)
    (reached : Bool) (w : World β) :
    tablesAfter e reached w bucket key table = w.duckdb table :=
  Function.update_of_ne h.symm _ _

theorem createTable_run (reached : Bool) (w : World β) (bucket key : Str) :
    Eff.run (createTableIfDoesNotExists e reached bucket key (tableName e bucket key)) w =
      (.ok (), { w with duckdb := tablesAfter e reached w bucket key }) := by
  unfold createTableIfDoesNotExists tablesAfter
  rw [Eff.run_bind_of_ok (Eff.run_get w)]
  cases htable : w.duckdb (tableName e bucket key) with
  | some rows =>
      rw [Option.some_or, ← htable, Function.update_eq_self, htable]
      rfl
  | none =>
      rw [Option.none_or]
      cases hload : load e reached w bucket key with
      | some rows => rfl
      | none =>
          rw [← htable, Function.update_eq_self, htable]
          rfl

theorem select_run (reached : Bool) (w : World β) (bucket key whereClause : Str)
    (h : Plain e whereClause) :
    Eff.run (selectFromS3ParquetFile e reached bucket key whereClause) w =
      (rowsFrom e (tableName e bucket key) whereClause
          ((w.duckdb (tableName e bucket key)).or (load e reached w bucket key)),
        { w with duckdb := tablesAfter e reached w bucket key }) := by
  have hrows := h.rows (tablesAfter e reached w bucket key)
    (Function.update (fun _ => none) (tableName e bucket key)
      ((w.duckdb (tableName e bucket key)).or (load e reached w bucket key)))
    (tableName e bucket key) (by rw [tablesAfter_of_eq rfl, Function.update_self])
  have htables := h.tables (tablesAfter e reached w bucket key) (tableName e bucket key)
  unfold selectFromS3ParquetFile rowsFrom
  rw [Eff.run_bind_of_ok (createTable_run e reached w bucket key),
    Eff.run_bind_of_ok (Eff.run_get _), ← hrows]
  rcases hquery : e.query (tablesAfter e reached w bucket key) (tableName e bucket key)
    whereClause with ⟨result, tables⟩
  rw [hquery] at htables
  cases htables
  rw [Eff.run_bind_of_ok (Eff.run_modify _ _)]
  cases result <;> rfl

/-- A client without tables, asked the same. -/
def freshSelect (reached : Bool) (w : World β) (bucket key whereClause : Str) :
    Except Stop Rows :=
  (Eff.run (selectFromS3ParquetFile e reached bucket key whereClause)
    { w with duckdb := fun _ => none }).1

theorem freshSelect_eq (reached : Bool) (w : World β) (bucket key whereClause : Str)
    (h : Plain e whereClause) :
    freshSelect e reached w bucket key whereClause =
      rowsFrom e (tableName e bucket key) whereClause (load e reached w bucket key) := by
  rw [freshSelect, select_run e reached _ bucket key whereClause h]
  rfl

/-! ## Histories -/

/-- What may happen, one after the other: a request, which reaches S3 or does
not should it try to load, and the overwriting of an object. -/
inductive HistoryAction where
  | request (bucket key whereClause : Str) (reached : Bool)
  | overwrite (bucket key content : Str)

def historyStep (w : World β) : HistoryAction → Option (World β)
  | .request bucket key whereClause reached =>
      some (Eff.run (selectFromS3ParquetFile e reached bucket key whereClause) w).2
  | .overwrite bucket key content => some (w.putObject bucket key content)

/-- S3 holds something, and there are no tables yet. -/
def startWith (s3 : Str → Str → Option Str) : World β := { World.empty with s3 := s3 }

/-- Where clauses are conditions on rows. -/
def HistoryAction.Plain : HistoryAction → Prop
  | .request _ _ whereClause _ => DuckDBClient.Plain e whereClause
  | .overwrite _ _ _ => True

/-- A request for a pair with the same hashes that could load its object. -/
def Loads (bucket key : Str) (w : World β) (a : HistoryAction) : Prop :=
  ∃ bucket' key' whereClause reached, a = .request bucket' key' whereClause reached ∧
    HashAlike e bucket key bucket' key' ∧ load e reached w bucket' key' ≠ none

/-- Some request of the history could load an object for these hashes. -/
def Loaded (s3 : Str → Str → Option Str) (as : List HistoryAction) (bucket key : Str) : Prop :=
  Runs.Took (historyStep (β := β) e) (startWith s3) as (Loads e bucket key)

/-- The first request of the history that could load an object for these
hashes was for `bucket'` and `key'`, in `w₀`. -/
structure FirstLoad (s3 : Str → Str → Option Str) (as : List HistoryAction) (bucket key : Str)
    (bucket' key' : Str) (reached : Bool) (w₀ : World β) : Prop where
  taken : ∃ pre whereClause post, as = pre ++ .request bucket' key' whereClause reached :: post ∧
    Runs.run (historyStep e) (startWith s3) pre = some w₀ ∧ ¬ Loaded (β := β) e s3 pre bucket key
  alike : HashAlike e bucket key bucket' key'
  loads : load e reached w₀ bucket' key' ≠ none

section Histories

variable {e} {s3 : Str → Str → Option Str} {as : List HistoryAction} {a : HistoryAction}
  {w w' : World β}

theorem FirstLoad.append {bucket key bucket' key' : Str} {reached : Bool} {w₀ : World β}
    (h : FirstLoad e s3 as bucket key bucket' key' reached w₀) (bs : List HistoryAction) :
    FirstLoad e s3 (as ++ bs) bucket key bucket' key' reached w₀ := by
  obtain ⟨pre, whereClause, post, rfl, hpre, hnone⟩ := h.taken
  exact ⟨⟨pre, whereClause, post ++ bs, by simp, hpre, hnone⟩, h.alike, h.loads⟩

/-- Where the table of a pair is from. -/
def Origin (e : Engine) (s3 : Str → Str → Option Str) (as : List HistoryAction) (w : World β)
    (bucket key : Str) : Prop :=
  (w.duckdb (tableName e bucket key) = none ∧ ¬ Loaded (β := β) e s3 as bucket key) ∨
    ∃ bucket' key' reached, ∃ w₀ : World β,
      FirstLoad e s3 as bucket key bucket' key' reached w₀ ∧
        w.duckdb (tableName e bucket key) = load e reached w₀ bucket' key'

/-- An action that is no load of the pair's hashes, and leaves its table. -/
theorem Origin.keep {bucket key : Str}
    (hrun : Runs.run (historyStep e) (startWith s3) as = some w)
    (h : Origin e s3 as w bucket key)
    (htable : w'.duckdb (tableName e bucket key) = w.duckdb (tableName e bucket key))
    (hno : w.duckdb (tableName e bucket key) = none → ¬ Loads e bucket key w a) :
    Origin e s3 (as ++ [a]) w' bucket key := by
  rcases h with ⟨hnone, hloaded⟩ | ⟨bucket', key', reached, w₀, hfirst, hfrom⟩
  · refine .inl ⟨htable.trans hnone, ?_⟩
    rw [Loaded, Runs.took_concat_iff hrun]
    exact not_or.mpr ⟨hloaded, hno hnone⟩
  · exact .inr ⟨bucket', key', reached, w₀, hfirst.append [a], htable.trans hfrom⟩

/-- A request for a pair with the same hashes: its table is there, or it is
loaded, or it is not. -/
theorem Origin.request {bucket key bucket₁ key₁ whereClause : Str} {reached : Bool}
    (hrun : Runs.run (historyStep e) (startWith s3) as = some w)
    (h : Origin e s3 as w bucket key) (halike : HashAlike e bucket key bucket₁ key₁)
    (htable : w'.duckdb (tableName e bucket key) =
      (w.duckdb (tableName e bucket key)).or (load e reached w bucket₁ key₁)) :
    Origin e s3 (as ++ [.request bucket₁ key₁ whereClause reached]) w' bucket key := by
  cases hold : w.duckdb (tableName e bucket key) with
  | some rows =>
      refine h.keep hrun ?_ fun hnone => ?_
      · rw [htable, hold, Option.some_or]
      · rw [hold] at hnone
        cases hnone
  | none =>
      rw [hold, Option.none_or] at htable
      by_cases hload : load e reached w bucket₁ key₁ = none
      · refine h.keep hrun ?_ fun _ => ?_
        · rw [htable, hload, hold]
        · rintro ⟨_, _, _, _, ⟨⟩, _, hloads⟩
          exact hloads hload
      · have hloaded : ¬ Loaded (β := β) e s3 as bucket key := by
          rcases h with ⟨_, hloaded⟩ | ⟨_, _, _, _, hfirst, hfrom⟩
          · exact hloaded
          · exact absurd (hfrom.symm.trans hold) hfirst.loads
        exact .inr ⟨bucket₁, key₁, reached, w,
          ⟨⟨as, whereClause, [], rfl, hrun, hloaded⟩, halike, hload⟩, htable⟩

theorem Origin.step (hrun : Runs.run (historyStep e) (startWith s3) as = some w)
    (h : ∀ bucket key, Origin e s3 as w bucket key) (hplain : a.Plain e)
    (hstep : historyStep e w a = some w') (bucket key : Str) :
    Origin e s3 (as ++ [a]) w' bucket key := by
  cases a with
  | overwrite bucket₁ key₁ content =>
      cases hstep
      refine (h bucket key).keep hrun rfl fun _ => ?_
      rintro ⟨_, _, _, _, ⟨⟩, _⟩
  | request bucket₁ key₁ whereClause reached =>
      cases hstep
      rw [select_run e reached w bucket₁ key₁ whereClause hplain]
      by_cases hname : tableName e bucket₁ key₁ = tableName e bucket key
      · exact (h bucket key).request hrun ((tableName_eq_iff e).mp hname)
          (tablesAfter_of_eq hname reached w)
      · refine (h bucket key).keep hrun (tablesAfter_of_ne hname reached w) fun _ => ?_
        rintro ⟨_, _, _, _, ⟨⟩, halike, _⟩
        exact hname ((tableName_eq_iff e).mpr halike)

theorem origin_run (hplain : ∀ a ∈ as, a.Plain e)
    (hrun : Runs.run (historyStep e) (startWith s3) as = some w) (bucket key : Str) :
    Origin e s3 as w bucket key := by
  refine Runs.run_inv_trace (P := fun as w => (∀ a ∈ as, a.Plain e) →
    ∀ bucket key, Origin e s3 as w bucket key) ?_ ?_ hrun hplain bucket key
  · intro _ bucket key
    refine .inl ⟨rfl, ?_⟩
    rintro ⟨pre, a, post, _, has, _⟩
    exact absurd has.symm (List.append_ne_nil_of_right_ne_nil pre (List.cons_ne_nil a post))
  · intro pre w a w' hpre h hstep hplain
    exact Origin.step hpre (h fun b hb => hplain b (List.mem_append_left [a] hb))
      (hplain a (by simp)) hstep

variable (e s3 as w) in
/-- The request is the first for its hashes that may load, and is answered as
by a client without tables; or the answer is the one such a client gives when
asked for the first pair with the same hashes that could be loaded, at the time
of that load, which is also its answer now if it would load the same rows. -/
def AnsweredFromFirstLoad (reached : Bool) (bucket key whereClause : Str) : Prop :=
  let answer := (Eff.run (selectFromS3ParquetFile e reached bucket key whereClause) w).1
  (¬ Loaded (β := β) e s3 as bucket key ∧
      answer = freshSelect e reached w bucket key whereClause) ∨
    ∃ bucket' key' reached', ∃ w₀ : World β,
      FirstLoad e s3 as bucket key bucket' key' reached' w₀ ∧
        answer = freshSelect e reached' w₀ bucket' key' whereClause ∧
        (load e reached w bucket key = load e reached' w₀ bucket' key' →
          answer = freshSelect e reached w bucket key whereClause)

/-- **In every history of requests, whose where clauses are conditions on
rows, and overwrites, every request is answered from the first object with its
hashes that could be loaded, as it was then.** -/
theorem rows_of_first_load (hplain : ∀ a ∈ as, a.Plain e)
    (hrun : Runs.run (historyStep e) (startWith s3) as = some w) {whereClause : Str}
    (hwhere : Plain e whereClause) (bucket key : Str) (reached : Bool) :
    AnsweredFromFirstLoad e s3 as w reached bucket key whereClause := by
  unfold AnsweredFromFirstLoad
  rw [select_run e reached w bucket key whereClause hwhere,
    freshSelect_eq e reached w bucket key whereClause hwhere]
  rcases origin_run hplain hrun bucket key with
    ⟨hnone, hloaded⟩ | ⟨bucket', key', reached', w₀, hfirst, hfrom⟩
  · refine .inl ⟨hloaded, ?_⟩
    rw [hnone, Option.none_or]
  · obtain ⟨rows, hrows⟩ := Option.ne_none_iff_exists'.mp hfirst.loads
    have hor : (w.duckdb (tableName e bucket key)).or (load e reached w bucket key) =
        load e reached' w₀ bucket' key' := by
      rw [hfrom, hrows, Option.some_or]
    refine .inr ⟨bucket', key', reached', w₀, hfirst, ?_, fun hsame => ?_⟩
    · rw [freshSelect_eq e reached' w₀ bucket' key' whereClause hwhere, hor,
        (tableName_eq_iff e).mpr hfirst.alike]
    · rw [hor, hsame]

end Histories

/-- Reads the rows of another table. -/
def unionClause : Str := "FALSE UNION ALL SELECT * FROM sravz_1_1".toList

/-- Hashes a text to its length and takes an object for one row; knows the
where clauses that keep every row and that read another table. -/
def lengthEngine : Engine where
  hash s := s.length.toUInt64
  parquetScan content := some [.string content]
  query tables table whereClause :=
    (match tables table with
      | none => .error "Catalog Error".toList
      | some rows =>
          if whereClause = "TRUE".toList then .ok rows
          else if whereClause = unionClause then
            match tables "sravz_1_1".toList with
            | none => .error "Catalog Error".toList
            | some rows => .ok rows
          else .error "Parser Error".toList,
      tables)

theorem plain_true : Plain lengthEngine "TRUE".toList := by
  refine ⟨fun _ _ => rfl, ?_⟩
  intro tables tables' table h
  simp only [lengthEngine, h, if_true]

/-- Three objects in one bucket; two of the keys are of the same length. -/
def threeObjects : Str → Str → Option Str := fun bucket key =>
  if bucket = "b".toList then
    List.lookup key [("k".toList, "old".toList), ("j".toList, "other".toList),
      ("long".toList, "long".toList)]
  else none

/-- The object is loaded, and then overwritten. -/
def loadThenOverwrite : List HistoryAction :=
  [.request "b".toList "k".toList "TRUE".toList true,
    .overwrite "b".toList "k".toList "new".toList]

theorem rows_of_first_load_overwritten :
    ∃ w : World Unit,
      Runs.run (historyStep lengthEngine) (startWith threeObjects) loadThenOverwrite = some w ∧
        AnsweredFromFirstLoad lengthEngine threeObjects loadThenOverwrite w true "b".toList
          "k".toList "TRUE".toList := by
  have hplain : ∀ a ∈ loadThenOverwrite, a.Plain lengthEngine := by
    intro a ha
    rcases List.mem_cons.mp ha with rfl | ha
    · exact plain_true
    · rw [List.mem_singleton.mp ha]
      trivial
  have hrun : Runs.run (historyStep (β := Unit) lengthEngine) (startWith threeObjects)
      loadThenOverwrite = some _ := rfl
  exact ⟨_, hrun, rows_of_first_load hplain hrun plain_true "b".toList "k".toList true⟩

/-- After a load, a request gets the rows of before the object was
overwritten; another key whose hash is the same gets them too; and a where
clause may read them from any other table. -/
theorem stale_and_foreign_rows :
    (∃ w : World Unit,
      Runs.run (historyStep lengthEngine) (startWith threeObjects) loadThenOverwrite = some w ∧
        (Eff.run (selectFromS3ParquetFile lengthEngine true "b".toList "k".toList
          "TRUE".toList) w).1 = .ok [.string "old".toList] ∧
        freshSelect lengthEngine true w "b".toList "k".toList "TRUE".toList =
          .ok [.string "new".toList]) ∧
      ∃ w : World Unit,
        Runs.run (historyStep lengthEngine) (startWith threeObjects)
            [.request "b".toList "k".toList "TRUE".toList true] = some w ∧
          (Eff.run (selectFromS3ParquetFile lengthEngine true "b".toList "j".toList
            "TRUE".toList) w).1 = .ok [.string "old".toList] ∧
          freshSelect lengthEngine true w "b".toList "j".toList "TRUE".toList =
            .ok [.string "other".toList] ∧
          (Eff.run (selectFromS3ParquetFile lengthEngine true "b".toList "long".toList
            unionClause) w).1 = .ok [.string "old".toList] ∧
          freshSelect lengthEngine true w "b".toList "long".toList unionClause =
            .error (.thrown "Catalog Error".toList) :=
  ⟨⟨_, rfl, rfl, rfl⟩, _, rfl, rfl, rfl, rfl, rfl⟩

end DuckDBClient

end SravzBackend.Services
